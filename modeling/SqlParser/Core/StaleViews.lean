import SqlParser.Core.HandleGenerations

/-! # Stale views of a handle

At the end of a list of patches the generation is one more than before the list, so that a run of calls never comes
back to a generation over different contents before the counter has gone all the way round. A view that was recorded
over other contents is then refused.
-/

namespace SqlParser.Core

open SqlParser.Library.Versions

section calls

variable {Ast State : Type} {env : Environment Ast State} {handle : Handle Ast State}

/-! ## Calls -/

/-- What a handle stands for under a recorded generation. -/
def Handle.contents (env : Environment Ast State) (handle : Handle Ast State) : Option Text × Option Ast × Bool :=
  (handle.sql, handle.tree env, handle.failed)

/-- A handle between two calls. -/
structure Handle.Settled (env : Environment Ast State) (handle : Handle Ast State) : Prop where
  bounded : handle.generation < generations
  /-- A tree that the handle does not own is a copy of its wire. -/
  adapter : handle.representation ≠ .ownedAst → ∀ ast, handle.ast = some ast → handle.parseTree.bind env.unpack = some ast
  flushed : handle.patchBatchFlags.astDirty = false
  released : handle.failed = true → handle.Released

/-- A call leads from one settled handle to another, and to a new generation unless everything is as it was. -/
structure Called (env : Environment Ast State) (cost : Nat) (before after : Handle Ast State) : Prop where
  settled : after.Settled env
  advances : ∃ count ≤ cost, Advances Handle.generation (Handle.contents env) generations count before after
  failed : before.failed = true → after.failed = true ∧ after.generation = before.generation

/-! ### Reads -/

theorem promoteCompact_tree : (handle.promoteCompact env).2.tree env = handle.tree env := by
  unfold Handle.promoteCompact
  split
  · rfl
  next compact =>
    split
    · rfl
    · split
      · rfl
      next parserSql found =>
        split
        · rfl
        next ast parsed =>
          have isCompact : handle.compactInsert.isSome = true := Option.isSome_iff_ne_none.mpr compact
          rw [Handle.tree, Handle.tree, if_pos isCompact, found, Option.bind_some, parsed]
          rfl

theorem clearAst_tree (adapter : ∀ ast, handle.ast = some ast → handle.parseTree.bind env.unpack = some ast) :
    handle.clearAst.tree env = handle.tree env := by
  unfold Handle.clearAst
  split
  · rfl
  next ast found =>
    change (if handle.compactInsert.isSome then handle.parserSql.bind fun parserSql => (env.parseOwned parserSql).toOption
      else none <|> handle.parseTree.bind env.unpack) = _
    rw [Handle.tree, found, adapter ast found]
    rfl

/-- Of a handle that is given its adapter back, no tree is left but its own. -/
theorem discardAstAdapter_ast (notOwned : handle.discardAstAdapter.representation ≠ .ownedAst) :
    handle.discardAstAdapter.ast = none := by
  unfold Handle.discardAstAdapter at notOwned ⊢
  split
  · unfold Handle.clearAst
    split
    next none => exact none
    · rfl
  next owned =>
    rw [if_neg owned] at notOwned
    exact absurd notOwned owned

theorem discardAstAdapter_flags : handle.discardAstAdapter.patchBatchFlags = handle.patchBatchFlags := by
  unfold Handle.discardAstAdapter Handle.clearAst
  split
  · split <;> rfl
  · rfl

theorem discardAstAdapter_released (released : handle.Released) : handle.discardAstAdapter.Released := by
  unfold Handle.discardAstAdapter Handle.clearAst
  split
  · split
    · exact ⟨released.1, released.2, released.3, released.4, released.5, released.6, released.7, released.8, released.9⟩
    next ast found => exact absurd (released.ast_eq.symm.trans found) nofun
  · exact released

/-- A read that leaves the generation, the text, the mark and the tree as they are. -/
theorem Kept.called {before after : Handle Ast State} (kept : Kept before after) (settled : before.Settled env)
    (tree : after.tree env = before.tree env)
    (adapter : after.representation ≠ .ownedAst → ∀ ast, after.ast = some ast → after.parseTree.bind env.unpack = some ast)
    (flushed : after.patchBatchFlags.astDirty = false) (released : before.Released → after.Released) :
    Called env 0 before after where
  settled :=
    { bounded := by
        rw [kept.generation_eq]
        exact settled.bounded
      adapter := adapter
      flushed := flushed
      released := fun failed => released (settled.released (kept.failed_eq ▸ failed)) }
  advances := by
    refine ⟨0, Nat.le_refl _, Advances.same settled.bounded kept.generation_eq ?_⟩
    rw [Handle.contents, Handle.contents, kept.sql_eq, tree, kept.failed_eq]
  failed failed := ⟨kept.failed_eq.trans failed, kept.generation_eq⟩

theorem discardAstAdapter_called (settled : handle.Settled env) : Called env 0 handle handle.discardAstAdapter := by
  refine discardAstAdapter_kept.called settled ?_ ?_ ?_ discardAstAdapter_released
  · unfold Handle.discardAstAdapter
    split
    next notOwned => exact clearAst_tree (settled.adapter notOwned)
    · rfl
  · intro notOwned ast found
    rw [discardAstAdapter_ast notOwned] at found
    cases found
  · rw [discardAstAdapter_flags]
    exact settled.flushed

theorem promoteCompact_of_not_owned
    (notOwned : (handle.promoteCompact env).2.representation ≠ .ownedAst) : (handle.promoteCompact env).2 = handle := by
  unfold Handle.promoteCompact at notOwned ⊢
  split
  · rfl
  next compact =>
    rw [if_neg compact] at notOwned
    split
    · rfl
    next current =>
      rw [if_neg current] at notOwned
      split
      · rfl
      next parserSql found =>
        rw [found] at notOwned
        split
        · rfl
        next ast parsed =>
          simp only [parsed] at notOwned
          exact absurd rfl notOwned

theorem promoteCompact_flags : (handle.promoteCompact env).2.patchBatchFlags = handle.patchBatchFlags := by
  unfold Handle.promoteCompact
  split
  · rfl
  · split
    · rfl
    · split
      · rfl
      · split <;> rfl

theorem promoteCompact_called (settled : handle.Settled env) : Called env 0 handle (handle.promoteCompact env).2 := by
  refine promoteCompact_kept.called settled promoteCompact_tree ?_ ?_ ?_
  · intro notOwned
    have same := promoteCompact_of_not_owned notOwned
    rw [same] at notOwned ⊢
    exact settled.adapter notOwned
  · rw [promoteCompact_flags]
    exact settled.flushed
  · intro released
    rw [Handle.promoteCompact, if_pos released.compactInsert_eq]
    exact released

theorem Called.refl (settled : handle.Settled env) : Called env 0 handle handle :=
  Kept.refl.called settled rfl settled.adapter settled.flushed id

theorem Called.trans {cost more : Nat} {first second third : Handle Ast State} (left : Called env cost first second)
    (right : Called env more second third) : Called env (cost + more) first third where
  settled := right.settled
  advances := by
    obtain ⟨count, few, advances⟩ := left.advances
    obtain ⟨others, fewOthers, advancesRest⟩ := right.advances
    exact ⟨count + others, Nat.add_le_add few fewOthers, advances.trans advancesRest⟩
  failed failed := by
    obtain ⟨stillFailed, generation⟩ := left.failed failed
    obtain ⟨failedThen, generationThen⟩ := right.failed stillFailed
    exact ⟨failedThen, generationThen.trans generation⟩

theorem Called.mono {cost more : Nat} {before after : Handle Ast State} (called : Called env cost before after)
    (fits : cost ≤ more) :
    Called env more before after where
  settled := called.settled
  advances := by
    obtain ⟨count, few, advances⟩ := called.advances
    exact ⟨count, few.trans fits, advances⟩
  failed := called.failed

theorem bindAst_called {ast : Ast} (settled : handle.Settled env) (found : handle.ast = some ast) :
    Called env 0 handle (handle.bindAst env ast).2 := by
  have notReleased : ¬handle.Released := fun released => absurd (released.ast_eq.symm.trans found) nofun
  unfold Handle.bindAst
  dsimp only
  split
  · exact Kept.called ⟨rfl, rfl, rfl⟩ settled rfl settled.adapter settled.flushed fun released => absurd released notReleased
  · split
    · exact Kept.called ⟨rfl, rfl, rfl⟩ settled rfl settled.adapter settled.flushed fun released =>
        absurd released notReleased
    · have bound : Called env 0 handle { handle with dialectState := (env.bindAstState handle.dialectState (some ast)).2 } :=
        Kept.called ⟨rfl, rfl, rfl⟩ settled rfl settled.adapter settled.flushed fun released => absurd released notReleased
      exact bound.trans (discardAstAdapter_called bound.settled)

/-- The handle with the tree that it unpacks from its wire. -/
theorem unpack_called {ast : Ast} (settled : handle.Settled env) (missing : handle.ast = none)
    (noCompact : handle.compactInsert = none)
    (unpacked : handle.parseTree.bind env.unpack = some ast) :
    Called env 0 handle { handle with ast := some ast, representation := .legacyAst } := by
  refine Kept.called ⟨rfl, rfl, rfl⟩ settled ?_ ?_ settled.flushed ?_
  · rw [Handle.tree, Handle.tree, noCompact, missing, unpacked]
    rfl
  · intro _ other same
    exact unpacked.trans same
  · intro released
    rw [released.parseTree_eq] at unpacked
    cases unpacked

theorem promoteCompact_noCompact {next : Handle Ast State} (promoted : handle.promoteCompact env = (.ok, next)) :
    next.compactInsert = none := by
  unfold Handle.promoteCompact at promoted
  split at promoted
  next none =>
    cases promoted
    exact none
  · split at promoted
    · cases promoted
    · split at promoted
      · cases promoted
      · split at promoted
        next refusal refused => exact absurd (Prod.mk.inj promoted).1 refusal.property
        · cases promoted
          rfl

theorem ensureAst_called (settled : handle.Settled env) : Called env 0 handle (handle.ensureAst env).2 := by
  unfold Handle.ensureAst
  split
  · exact Called.refl settled
  · have promoted := promoteCompact_called settled
    split
    next next found =>
      rw [found] at promoted
      split
      next ast present =>
        split
        · exact promoted
        · exact promoted.trans (bindAst_called promoted.settled present)
      next missing =>
        split
        · exact promoted
        next ast unpacked =>
          have adapted := unpack_called promoted.settled missing (promoteCompact_noCompact found) unpacked
          exact promoted.trans (adapted.trans (bindAst_called adapted.settled rfl))
    next status next _ found =>
      rw [found] at promoted
      exact promoted

theorem handleBindOccurrences_called (settled : handle.Settled env) :
    Called env 0 handle (handleBindOccurrences env handle).2 := by
  unfold handleBindOccurrences
  split
  · exact Called.refl settled
  next present =>
    split
    · exact Called.refl settled
    · split
      · exact Called.refl settled
      · refine Kept.called ⟨rfl, rfl, rfl⟩ settled rfl settled.adapter settled.flushed fun released => ?_
        rw [released.sql_eq, Option.isNone_none, Bool.or_true] at present
        exact absurd rfl present

theorem statementQueryGraph_called (settled : handle.Settled env) (statementIndex : Nat) :
    Called env 0 handle (statementQueryGraph env handle statementIndex).2 := by
  unfold statementQueryGraph
  split
  · exact Called.refl settled
  next inside =>
    have notReleased : ¬handle.Released := fun released => by
      rw [released.statementCount_eq] at inside
      omega
    split
    · exact Called.refl settled
    · split
      · exact Kept.called ⟨rfl, rfl, rfl⟩ settled rfl settled.adapter settled.flushed fun released =>
          absurd released notReleased
      · exact Kept.called ⟨rfl, rfl, rfl⟩ settled rfl settled.adapter settled.flushed fun released =>
          absurd released notReleased

/-! ### Failures -/

theorem Handle.Released.settled (released : handle.Released) (bounded : handle.generation < generations) :
    handle.Settled env where
  bounded := bounded
  adapter _ ast found := by
    rw [released.ast_eq] at found
    cases found
  flushed := released.astDirty_eq
  released _ := released

theorem Advances.positive {before after : Handle Ast State} {count : Nat}
    (advances : Advances Handle.generation Handle.source generations count before after) (positive : 0 < count) :
    Advances Handle.generation (Handle.contents env) generations count before after :=
  ⟨advances.version_eq, fun zero => absurd zero (Nat.ne_of_gt positive)⟩

theorem Called.of_live {cost : Nat} {before after : Handle Ast State} (live : before.failed = false)
    (settled : after.Settled env)
    (advances : ∃ count ≤ cost, Advances Handle.generation (Handle.contents env) generations count before after) :
    Called env cost before after :=
  ⟨settled, advances, fun failed => absurd (live.symm.trans failed) nofun⟩

/-- Whatever operations a list is made of, its end in failure shows in the generation. -/
theorem Outcome.failed_called {bound : Nat} {status : Status} {refused : Handle Ast State} (live : handle.failed = false)
    (outcome : Outcome bound false handle (status, refused)) : Called env (bound + 1) handle refused.markFailed := by
  obtain ⟨count, few, advances, -⟩ := outcome.advances
  cases isFailed : refused.failed with
  | true =>
    rw [markFailed_of_failed isFailed]
    have positive : 0 < count := by
      rcases Nat.eq_zero_or_pos count with zero | positive
      · have same := (Prod.mk.inj (advances.contents_eq zero)).2
        rw [live] at same
        exact absurd (isFailed.symm.trans same) nofun
      · exact positive
    exact Called.of_live live ((outcome.failure isFailed).2.settled outcome.bounded)
      ⟨count, by omega, Advances.positive advances positive⟩
  | false =>
    have marked := advances.trans (Advances.of_next (congrArg Handle.generation (markFailed_eq isFailed)))
    have released : refused.markFailed.Released := by
      rw [markFailed_eq isFailed]
      exact ⟨rfl, rfl, rfl, rfl, rfl, rfl, rfl, rfl, rfl⟩
    exact Called.of_live live (released.settled (marked.bounded (by decide)))
      ⟨count + 1, by omega, Advances.positive marked (Nat.succ_pos count)⟩

theorem markFailed_called (settled : handle.Settled env) : Called env 1 handle handle.markFailed := by
  cases failed : handle.failed with
  | true =>
    rw [markFailed_of_failed failed]
    exact (Called.refl settled).mono (Nat.zero_le 1)
  | false =>
    have outcome : Outcome 0 false handle (.invalidArgument, handle) := Kept.refl.outcome failed settled.bounded nofun
    exact outcome.failed_called failed

theorem deparseCurrent_of_clean (clean : handle.patchBatchFlags.astDirty = false) :
    (handle.deparseCurrent env).2 = handle := by
  have flushes : handle.flushAst env = (.ok, handle) := by
    rw [Handle.flushAst, clean]
    rfl
  unfold Handle.deparseCurrent
  split
  · rw [flushes]
    dsimp only
    split <;> rfl
  · rfl

theorem deparse_called (settled : handle.Settled env) : Called env 1 handle (handle.deparse env).2 := by
  have current := @deparseCurrent_of_clean _ _ env handle settled.flushed
  unfold Handle.deparse
  split
  next status refused found =>
    rw [found] at current
    subst current
    exact markFailed_called settled
  next sql flushed found =>
    rw [found] at current
    subst current
    exact (Called.refl settled).mono (Nat.zero_le 1)

/-! ### Patches -/

theorem flushAst_clean {next : Handle Ast State} (flushed : handle.flushAst env = (.ok, next)) :
    next.patchBatchFlags.astDirty = false := by
  unfold Handle.flushAst at flushed
  split at flushed
  next clean =>
    cases flushed
    simpa using clean
  · dsimp only at flushed
    split at flushed
    · cases flushed
    · split at flushed
      · cases flushed
        rfl
      · split at flushed
        · cases flushed
        next refusal refused => exact absurd (Prod.mk.inj flushed).1 refusal.property
        · cases flushed
          rfl

/-- No patch is active, and no tree waits for its serialization. -/
structure Handle.Quiet (handle : Handle Ast State) : Prop where
  inactive : handle.patchBatchFlags.active = false
  clean : handle.patchBatchFlags.astDirty = false

theorem reparseDestructive_quiet {sql : Text} {next : Handle Ast State} (inactive : handle.patchBatchFlags.active = false)
    (parsed : handle.reparseDestructive env sql = (.ok, next)) : next.Quiet := by
  unfold Handle.reparseDestructive at parsed
  split at parsed
  next refusal refused => exact absurd (Prod.mk.inj parsed).1 refusal.property
  · cases parsed
    exact ⟨inactive, rfl⟩

theorem commitRebasedSource_quiet {sql parserSql : Text} {state : State} {independent : Bool} {next : Handle Ast State}
    (inactive : handle.patchBatchFlags.active = false)
    (committed : handle.commitRebasedSource env sql parserSql state independent = (.ok, next)) : next.Quiet := by
  unfold Handle.commitRebasedSource at committed
  split at committed
  · cases committed
  · split at committed
    · cases committed
    · split at committed
      · split at committed
        · split at committed
          · cases committed
            exact ⟨inactive, inactive⟩
          next refused found => exact absurd (Prod.mk.inj committed).1 refused
        next refused found => exact absurd (Prod.mk.inj committed).1 refused
      next refused => exact absurd (Prod.mk.inj committed).1 refused

theorem Materialization.quiet {next : Handle Ast State} (quiet : handle.Quiet) (materialization : Materialization Ast State)
    (materialized : materialization.apply env handle = (.ok, next)) : next.Quiet := by
  cases materialization with
  | multiInsertStrings sql state =>
    cases materialized
    exact ⟨quiet.inactive, quiet.clean⟩
  | rebasedSource ast sql parserSql state =>
    exact @commitRebasedSource_quiet _ _ env (handle.editAst ast) _ _ _ _ _ quiet.inactive materialized
  | surface sql => exact reparseDestructive_quiet quiet.inactive materialized
  | current =>
    have current := @deparseCurrent_of_clean _ _ env handle quiet.clean
    unfold Materialization.apply Handle.deparse at materialized
    rcases found : handle.deparseCurrent env with ⟨value, flushed⟩
    rw [found] at current materialized
    subst current
    cases value with
    | error status =>
      have refused := @deparseCurrent_ne_ok Ast State env flushed
      rw [found] at refused
      exact absurd (congrArg Except.error (Prod.mk.inj materialized).1) refused
    | ok sql => exact reparseDestructive_quiet quiet.inactive materialized

theorem materializeAll_quiet {start next : Handle Ast State} (quiet : start.Quiet)
    (materializations : List (Materialization Ast State))
    (materialized : materializeAll env start materializations = (.ok, next)) : next.Quiet := by
  induction materializations generalizing start with
  | nil =>
    cases materialized
    exact quiet
  | cons materialization rest inductionHypothesis =>
    rw [materializeAll] at materialized
    split at materialized
    next middle found => exact inductionHypothesis (materialization.quiet quiet found) materialized
    next status middle refused found =>
      cases materialized
      exact absurd rfl refused

theorem applyBatch_quiet {next : Handle Ast State} {patches : Patches Ast State}
    (applied : applyBatch env handle patches = (.ok, next)) :
    next.Quiet := by
  unfold applyBatch at applied
  dsimp only at applied
  rcases found : flushSteps env { handle with patchBatchFlags := ⟨true, false, false, true⟩, surfaceSourceComplete := false }
    patches.steps with ⟨status, flushed⟩
  rw [found] at applied
  dsimp only at applied
  split at applied
  next refused => exact absurd (Prod.mk.inj applied).1 refused
  next isOk =>
    rw [not_not] at isOk
    subst isOk
    split at applied
    next refused => exact absurd (Prod.mk.inj applied).1 refused
    · refine materializeAll_quiet ⟨rfl, ?_⟩ patches.materializations applied
      unfold flushSteps at found
      split at found
      · change flushed.patchBatchFlags.astDirty = false
        exact flushAst_clean found
      next refused isSame => exact absurd (Prod.mk.inj found).1 refused

/-- A list of patches that succeeds has advanced the generation by one, however many operations it is made of. -/
theorem finishBatch_called {applied : Handle Ast State} (live : handle.failed = false) (appliedLive : applied.failed = false)
    (clean : applied.patchBatchFlags.astDirty = false) (surfaceComplete : Bool) :
    Called env 1 handle (finishBatch applied handle.generation surfaceComplete) := by
  have kept := @discardAstAdapter_kept Ast State
    { applied with
      surfaceSourceComplete := surfaceComplete || applied.surfaceSourceComplete
      patchBatchFlags := { applied.patchBatchFlags with inPlace := false }
      generation := nextGeneration handle.generation }.invalidateDerived
  have generation : (finishBatch applied handle.generation surfaceComplete).generation = nextGeneration handle.generation :=
    kept.generation_eq
  refine Called.of_live live ?_ ⟨1, Nat.le_refl _, Advances.positive (Advances.of_next generation) Nat.one_pos⟩
  refine ⟨?_, ?_, ?_, ?_⟩
  · rw [generation]
    exact nextGeneration_lt _
  · intro notOwned ast found
    rw [finishBatch, discardAstAdapter_ast notOwned] at found
    cases found
  · rw [finishBatch, discardAstAdapter_flags]
    exact clean
  · intro failed
    exact absurd ((kept.failed_eq.trans appliedLive).symm.trans failed) nofun

theorem applyGeneral_called (settled : handle.Settled env) (live : handle.failed = false) (patches : Patches Ast State) :
    Called env (3 * (patches.steps.length + patches.materializations.length) + 1) handle
      (applyGeneral env handle patches).2 := by
  have promoted := @promoteCompact_kept Ast State env handle
  unfold applyGeneral
  split
  · exact (Kept.refl.outcome live settled.bounded nofun : Outcome 0 false handle
      (patches.planning, handle)).failed_called live |>.mono (by omega)
  · split
    next next found =>
      rw [found] at promoted
      have nextLive : next.failed = false := promoted.failed_eq.trans live
      have nextBounded : next.generation < generations := by
        rw [promoted.generation_eq]
        exact settled.bounded
      have outcome := (@applyBatch_outcome Ast State env next nextLive nextBounded patches).of_kept promoted settled.bounded
      split
      next applied isApplied =>
        rw [isApplied] at outcome
        have clean := (applyBatch_quiet isApplied).clean
        exact (finishBatch_called live outcome.live clean patches.surfaceComplete).mono (by omega)
      next status refused _ isRefused =>
        rw [isRefused] at outcome
        exact outcome.failed_called live
    next status next _ found =>
      rw [found] at promoted
      exact (promoted.outcome live settled.bounded nofun : Outcome 0 false handle (status, next)).failed_called
        live |>.mono (by omega)

/-! ### Direct commits -/

theorem DirectCommit.outcome (live : handle.failed = false) (bounded : handle.generation < generations)
    (direct : DirectCommit Ast State) : Outcome 2 true handle (direct.apply env handle) := by
  cases direct with
  | certifiedInsertWire sql wire statementCount => exact (outcome_next live rfl rfl).mono (by omega)
  | compactInsert sql edits => exact ((commitCompactInsert_committed sql edits).outcome live bounded).mono (by omega)
  | certifiedInsertStrings ast sql =>
    exact (((commitCertifiedInsertStrings_committed sql).of_kept (editAst_kept ast)).outcome live bounded).mono (by omega)
  | multiInsertStrings sql state =>
    have kept := @discardAstAdapter_kept Ast State
      { (handle.commitMultiInsertStrings sql state).2 with generation := nextGeneration handle.generation }
    exact (outcome_next live kept.generation_eq kept.failed_eq).mono (by omega)
  | reparse sql => exact reparseDestructive_outcome live sql

theorem clearAst_ast : handle.clearAst.ast = none := by
  unfold Handle.clearAst
  split
  next missing => exact missing
  · rfl

theorem clearAst_flags : handle.clearAst.patchBatchFlags = handle.patchBatchFlags := by
  unfold Handle.clearAst
  split <;> rfl

/-- A direct commit leaves no adapter behind, and nothing to serialize. -/
theorem DirectCommit.clean {next : Handle Ast State} (flushed : handle.patchBatchFlags.astDirty = false)
    (direct : DirectCommit Ast State) (committed : direct.apply env handle = (.ok, next)) :
    (next.representation ≠ .ownedAst → next.ast = none) ∧ next.patchBatchFlags.astDirty = false := by
  cases direct with
  | certifiedInsertWire sql wire statementCount =>
    cases committed
    exact ⟨fun _ => rfl, rfl⟩
  | compactInsert sql edits =>
    change handle.commitCompactInsert env sql edits = (.ok, next) at committed
    unfold Handle.commitCompactInsert at committed
    split at committed
    · dsimp only at committed
      split at committed
      · cases committed
        exact ⟨fun _ => rfl, rfl⟩
      next refused found => exact absurd (Prod.mk.inj committed).1 refused
    · cases committed
  | certifiedInsertStrings ast sql =>
    change (handle.editAst ast).commitCertifiedInsertStrings env sql = (.ok, next) at committed
    unfold Handle.commitCertifiedInsertStrings at committed
    dsimp only at committed
    split at committed
    next owned =>
      cases committed
      exact ⟨fun notOwned => absurd (if_pos owned) notOwned, rfl⟩
    · split at committed
      next refusal found => exact absurd (Prod.mk.inj committed).1 refusal.property
      · cases committed
        exact ⟨fun _ => clearAst_ast, by rw [clearAst_flags]; rfl⟩
      · split at committed
        · cases committed
          exact ⟨fun _ => clearAst_ast, by rw [clearAst_flags]; rfl⟩
        next refused found => exact absurd (Prod.mk.inj committed).1 refused
  | multiInsertStrings sql state =>
    cases committed
    refine ⟨discardAstAdapter_ast, ?_⟩
    rw [discardAstAdapter_flags]
    exact flushed
  | reparse sql =>
    change handle.reparseDestructive env sql = (.ok, next) at committed
    unfold Handle.reparseDestructive at committed
    split at committed
    next refusal refused => exact absurd (Prod.mk.inj committed).1 refusal.property
    next parsed found =>
      cases committed
      refine ⟨fun notOwned => ?_, rfl⟩
      cases isTree : parsed.tree with
      | inl wire =>
        change parsed.tree.getRight? = none
        rw [isTree]
        rfl
      | inr ast =>
        refine absurd ?_ notOwned
        change (if parsed.tree.isLeft then _ else _) = _
        rw [isTree]
        rfl

theorem DirectCommit.called {next : Handle Ast State} (settled : handle.Settled env) (live : handle.failed = false)
    (direct : DirectCommit Ast State) (committed : direct.apply env handle = (.ok, next)) : Called env 2 handle next := by
  have outcome := @DirectCommit.outcome Ast State env handle live settled.bounded direct
  rw [committed] at outcome
  obtain ⟨noAdapter, clean⟩ := direct.clean settled.flushed committed
  obtain ⟨count, few, advances, positive⟩ := outcome.advances
  refine Called.of_live live ?_ ⟨count, few, Advances.positive advances (positive rfl rfl)⟩
  refine ⟨outcome.bounded, fun notOwned ast found => ?_, clean, fun failed => absurd (outcome.live.symm.trans failed) nofun⟩
  rw [noAdapter notOwned] at found
  cases found

theorem DirectCommit.compact_refused {status : Status} {next : Handle Ast State} {direct : DirectCommit Ast State}
    (isCompact : direct.isCompact = true) (refused : status ≠ .ok) (committed : direct.apply env handle = (status, next)) :
    next = handle := by
  cases direct with
  | compactInsert sql edits =>
    change handle.commitCompactInsert env sql edits = (status, next) at committed
    unfold Handle.commitCompactInsert at committed
    split at committed
    · dsimp only at committed
      split at committed
      · exact absurd (Prod.mk.inj committed).1.symm refused
      · exact (Prod.mk.inj committed).2.symm
    · exact (Prod.mk.inj committed).2.symm
  | certifiedInsertWire | certifiedInsertStrings | multiInsertStrings | reparse => cases isCompact

theorem applyPatch_called (settled : handle.Settled env) (patches : Patches Ast State) :
    Called env (3 * (patches.steps.length + patches.materializations.length) + 4) handle
      (applyPatch env handle patches).2 := by
  unfold applyPatch
  split
  · exact (markFailed_called settled).mono (by omega)
  next accepted =>
    have live : handle.failed = false := by
      rw [Bool.or_eq_true, not_or, Bool.not_eq_true] at accepted
      exact accepted.1
    split
    · exact (Called.refl settled).mono (by omega)
    · split
      · exact (applyGeneral_called settled live patches).mono (by omega)
      next direct isDirect =>
        split
        next committed found => exact (direct.called settled live found).mono (by omega)
        next status refused isRefused found =>
          split
          next misses =>
            rw [Bool.and_eq_true] at misses
            rw [DirectCommit.compact_refused misses.1 isRefused found]
            exact (applyGeneral_called settled live patches).mono (by omega)
          · have outcome := @DirectCommit.outcome Ast State env handle live settled.bounded direct
            rw [found] at outcome
            obtain ⟨advances, failure⟩ := outcome
            have weaker : Outcome 2 false handle (status, refused) := by
              obtain ⟨count, few, advances, -⟩ := advances
              exact ⟨⟨count, few, advances, nofun⟩, failure⟩
            exact (weaker.failed_called live).mono (by omega)

/-! ### Runs -/

theorem Call.called (settled : handle.Settled env) (call : Call Ast State) :
    Called env call.cost handle (call.apply env handle) := by
  cases call with
  | ensureAst => exact ensureAst_called settled
  | discardAstAdapter => exact discardAstAdapter_called settled
  | bindOccurrences => exact handleBindOccurrences_called settled
  | queryGraph statementIndex => exact statementQueryGraph_called settled statementIndex
  | deparse => exact deparse_called settled
  | patch patches => exact applyPatch_called settled patches

theorem FirstParse.settled (first : FirstParse Ast State) : first.handle.Settled env := by
  cases first with
  | parsed parsed =>
    refine ⟨Nat.two_pow_pos 64, fun notOwned ast found => ?_, rfl, nofun⟩
    cases isTree : parsed.tree with
    | inl wire =>
      change parsed.tree.getRight? = some ast at found
      rw [isTree] at found
      cases found
    | inr tree =>
      refine absurd ?_ notOwned
      change (if parsed.tree.isLeft then _ else _) = _
      rw [isTree]
      rfl
  | compact sql compact state => exact ⟨Nat.two_pow_pos 64, fun _ _ => nofun, rfl, nofun⟩

theorem calls_advance : StepsAdvance Handle.generation (Handle.contents env) generations (Handle.Settled env) (Call.apply env)
    (@Call.cost Ast State) :=
  fun call _ settled => ⟨(Call.called settled call).settled, (Call.called settled call).advances⟩

theorem runCalls_advances (settled : handle.Settled env) (calls : List (Call Ast State)) :
    (runCalls env calls handle).Settled env ∧
      ∃ count ≤ (calls.map Call.cost).sum,
        Advances Handle.generation (Handle.contents env) generations count handle (runCalls env calls handle) :=
  calls_advance.run settled settled.bounded calls

/-- A handle that is marked failed stays as it is. -/
theorem runCalls_failed (settled : handle.Settled env) (failed : handle.failed = true) (calls : List (Call Ast State)) :
    (runCalls env calls handle).failed = true ∧ (runCalls env calls handle).generation = handle.generation := by
  induction calls generalizing handle with
  | nil => exact ⟨failed, rfl⟩
  | cons call calls inductionHypothesis =>
    have called := Call.called settled call
    obtain ⟨stillFailed, generation⟩ := called.failed failed
    obtain ⟨failedThen, generationThen⟩ := inductionHypothesis called.settled stillFailed
    exact ⟨failedThen, generationThen.trans generation⟩

/-- A handle that gives nothing away: no tree, no wire and no compact INSERT. -/
structure Handle.ExposesNothing (env : Environment Ast State) (handle : Handle Ast State) : Prop where
  ast_eq : handle.ast = none
  parseTree_eq : handle.parseTree = none
  compactInsert_eq : handle.compactInsert = none
  tree_eq : handle.tree env = none
  no_representation : handle.hasRepresentation = false

theorem Handle.Settled.exposes_nothing (settled : handle.Settled env) (failed : handle.failed = true) :
    handle.ExposesNothing env := by
  have released := settled.released failed
  refine ⟨released.ast_eq, released.parseTree_eq, released.compactInsert_eq, ?_, ?_⟩
  · rw [Handle.tree, released.compactInsert_eq, released.ast_eq, released.parseTree_eq]
    rfl
  · rw [Handle.hasRepresentation, failed]
    rfl

/-! ## Views of another generation -/

/-- Every access through a view of some generation is refused. -/
structure Handle.RejectsViews (handle : Handle Ast State) (generation : Nat) : Prop where
  bindOccurrences : ∀ view : BindOccurrenceView, view.generation = generation → ∀ index,
    bindOccurrenceAt handle view index = none
  controlFlow : ∀ view : ControlFlowView, view.generation = generation → controlStateFromView handle view = none
  queryGraph : ∀ view : QueryGraphView, view.generation = generation → queryGraphStatement handle view = none

theorem rejectsViews_of_ne {generation : Nat} (other : handle.generation ≠ generation) : handle.RejectsViews generation where
  bindOccurrences view same index := by
    rw [bindOccurrenceAt, if_pos fun equal => other (equal.symm.trans same)]
  controlFlow view same := by
    rw [controlStateFromView, if_pos fun equal => other (equal.symm.trans same)]
  queryGraph view same := by
    unfold queryGraphStatement
    split
    · rfl
    · rw [if_pos (.inl fun equal => other (equal.symm.trans same))]

/-! ## Runs of calls -/

/-- What an operation inside a list of patches does to a handle that is not marked failed. -/
structure OperationAdvances (before : Handle Ast State) (operation : Operation Ast State)
    (result : Status × Handle Ast State) : Prop where
  generation : ∃ count ≤ 3, result.2.generation = (before.generation + count) % generations ∧
    ((operation.commits = true ∧ result.1 = .ok) ∨ result.2.sql ≠ before.sql ∨ result.2.failed = true → 0 < count)
  failure : result.2.failed = true → result.1 ≠ .ok ∧ result.2.ast = none ∧ result.2.parseTree = none ∧
    result.2.compactInsert = none

theorem operation_advances (live : handle.failed = false) (bounded : handle.generation < generations)
    (operation : Operation Ast State) :
    OperationAdvances handle operation (operation.apply env handle) := by
  have outcome := @Operation.outcome Ast State env handle live bounded operation
  refine ⟨?_, fun failed => ?_⟩
  · obtain ⟨count, few, advances, positive⟩ := outcome.advances
    refine ⟨count, few, advances.version_eq, fun changes => ?_⟩
    rcases Nat.eq_zero_or_pos count with zero | isPositive
    · have same := Prod.mk.inj (advances.contents_eq zero)
      rcases changes with ⟨commits, isOk⟩ | otherText | failed
      · exact positive commits isOk
      · exact absurd same.1 otherText
      · exact absurd (same.2.symm.trans failed) (by rw [live]; nofun)
    · exact isPositive
  · obtain ⟨refused, released⟩ := outcome.failure failed
    exact ⟨refused, released.ast_eq, released.parseTree_eq, released.compactInsert_eq⟩

/-- The handle at one point of a run, and at a later one. -/
structure LaterHandle (env : Environment Ast State) (recorded current : Handle Ast State) : Prop where
  generation_le : recorded.generation ≤ current.generation
  generation_lt : current.contents env ≠ recorded.contents env → recorded.generation < current.generation
  rejects : current.contents env ≠ recorded.contents env → current.RejectsViews recorded.generation
  failed : recorded.failed = true → current.failed = true
  exposes_nothing : current.failed = true → current.ExposesNothing env

/-- A view is never accepted over other contents than those it was recorded over, unless the counter has come round. -/
theorem stale_views_rejected (env : Environment Ast State) (first : FirstParse Ast State) (front back : List (Call Ast State))
    (short : ((front ++ back).map Call.cost).sum < generations) :
    LaterHandle env (runCalls env front first.handle) (runCalls env (front ++ back) first.handle) ∧
      ∀ handle : Handle Ast State, handle.failed = false → handle.generation < generations → ∀ operation,
        OperationAdvances handle operation (operation.apply env handle) := by
  refine ⟨?_, fun handle live bounded operation => operation_advances live bounded operation⟩
  have start : first.handle.generation = 0 := by cases first <;> rfl
  obtain ⟨settled, count, few, advances⟩ := runCalls_advances (@FirstParse.settled Ast State env first) front
  obtain ⟨settledThen, more, fewMore, advancesThen⟩ := runCalls_advances settled back
  rw [show runCalls env (front ++ back) first.handle = runCalls env back (runCalls env front first.handle) from
    run_append _ front back _]
  rw [List.map_append, List.sum_append] at short
  have recorded : (runCalls env front first.handle).generation = count := by
    rw [advances.version_eq_add (by omega), start, Nat.zero_add]
  have current : (runCalls env back (runCalls env front first.handle)).generation = count + more := by
    rw [advancesThen.version_eq_add (by omega), recorded]
  have changed : (runCalls env back (runCalls env front first.handle)).contents env ≠
    (runCalls env front first.handle).contents env →
      0 < more := fun different => by
    rcases Nat.eq_zero_or_pos more with zero | positive
    · exact absurd (advancesThen.contents_eq zero) different
    · exact positive
  refine ⟨by omega, fun different => ?_, fun different => ?_, fun failed => ?_, settledThen.exposes_nothing⟩
  · have positive := changed different
    omega
  · have positive := changed different
    exact rejectsViews_of_ne (by omega)
  · exact (runCalls_failed settled failed back).1

/-! ### A commit that is refused -/

/-- Trees that are only counted, where one statement is the limit. -/
def countingEnvironment : Environment Nat Unit where
  statementCount := id
  maxStatementCount := 1
  maxSqlBytes := 0
  validateStatements _ _ := .ok
  bindAstState state _ := (.ok, state)
  prepareAstState state _ := (.ok, state)
  reconcileAstState state _ := state
  pack tree := .packed [UInt8.ofNat tree]
  packCertified _ := none
  unpack wire := wire.head?.map UInt8.toNat
  parseOwned _ := .ok 1
  parse text := .ok ⟨text, text, 1, .inr 1, none, none⟩
  deparse handle := .ok (handle.sql.getD [])
  bindCount _ := .ok 0
  graphCount _ := .ok 1
  malloc _ := true

/-- A parse of one statement. -/
def countingFirst : FirstParse Nat Unit := .parsed ⟨ascii "SELECT 1", ascii "SELECT 1", 1, .inr 1, none, none⟩

/-- A commit over the limit loses the tree of the handle under the generation that the handle has had,
and the counter of a handle that has come to its end starts again. -/
theorem refused_commit_loses_tree :
    let handle := countingFirst.handle
    let refused := (Operation.commitAst 2 none).apply countingEnvironment handle
    let last := { handle with generation := 2 ^ 64 - 1 }
    refused.2.tree countingEnvironment ≠ handle.tree countingEnvironment ∧ refused.2.generation = handle.generation ∧
      ((Operation.commitAst 1 none).apply countingEnvironment last).2.generation < last.generation := by
  decide +kernel

/-- A literal is changed, and the list of patches after it is over the limit. -/
theorem stale_views_rejected_counting :
    LaterHandle countingEnvironment (runCalls countingEnvironment [.bindOccurrences] countingFirst.handle)
      (runCalls countingEnvironment
        ([.bindOccurrences] ++
          [.patch ⟨true, 1, none, .ok, [⟨.commitAst 1 none, false⟩], .ok, [], true⟩,
            .patch ⟨true, 1, none, .ok, [⟨.commitAst 2 none, false⟩], .ok, [], true⟩]) countingFirst.handle) :=
  (stale_views_rejected countingEnvironment countingFirst [.bindOccurrences] _ (by decide +kernel)).1

end calls

end SqlParser.Core
