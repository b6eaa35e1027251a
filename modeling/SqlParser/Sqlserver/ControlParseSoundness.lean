import SqlParser.Sqlserver.ControlFailures
import SqlParser.Sqlserver.ScannerHelpers

/-! # What the control-flow parser returns

The three passes over one parser do what one reading of the text says: they fail as it fails, and
otherwise lay its trees out in a state that the validation knows.
-/

namespace SqlParser.Sqlserver

open SqlParser.Core

/-! ## The scan -/

section scan

variable {scanner : Scanner} {rest : Text} {failure : Failure}

theorem passTrivia_code (sql rest : Text) (failed : (passTrivia sql rest).failure = some failure) :
    failure.error.code = .parseError := by
  fun_induction passTrivia sql rest with
  | case1 rest noRest => cases failed
  | case2 rest current tail found opens scan item message unclosed =>
    cases failed
    rfl
  | case3 rest current tail found opens scan item closed later inductionHypothesis => exact inductionHypothesis failed
  | case4 rest current tail found plain => cases failed

theorem quotedToken_code (kind : TokenKind) (quoted : Text)
    (failed : (scanner.quotedToken kind quoted).result = .error failure) : failure.error.code = .parseError := by
  unfold Scanner.quotedToken at failed
  dsimp only at failed
  split at failed
  next message unclosed =>
    cases failed
    rfl
  next closed => cases failed

theorem tokenTurn_code (byte : UInt8) (tail : Text) (failed : (scanner.tokenTurn byte tail).result = .error failure) :
    failure.error.code = .parseError := by
  unfold Scanner.tokenTurn at failed
  split_ifs at failed with national quote quoted word
  · exact quotedToken_code _ _ failed
  · exact quotedToken_code _ _ failed
  · exact quotedToken_code _ _ failed
  · unfold Scanner.wordToken Scanner.fail at failed
    dsimp only at failed
    split_ifs at failed
    cases failed
    rfl
  · unfold Scanner.symbolToken Scanner.fail at failed
    dsimp only at failed
    split_ifs at failed
    cases failed
    rfl

/-- Every failure of the scanner is a parse error. -/
theorem turn_code (status : scanner.status = none) (failed : scanner.turn.result = .error failure) :
    failure.error.code = .parseError := by
  unfold Scanner.turn at failed
  rw [status] at failed
  dsimp only at failed
  split at failed
  next => cases failed
  next =>
    split at failed
    next other unclosed =>
      cases failed
      exact passTrivia_code _ _ unclosed
    next =>
      split at failed
      next =>
        unfold Scanner.finish Scanner.fail at failed
        dsimp only at failed
        split_ifs at failed <;>
          · cases failed
            rfl
      next => exact tokenTurn_code _ _ failed

theorem tokenRun_code (ready : scanner.Ready rest) (failed : scanner.tokenRun.failure = some failure) :
    failure.error.code = .parseError := by
  fun_induction Scanner.tokenRun scanner generalizing rest with
  | case1 scanner other found =>
    cases failed
    exact turn_code ready.status found
  | case2 scanner token found isEof => cases failed
  | case3 scanner token found other later =>
    rename_i inductionHypothesis
    obtain ⟨behind, finds⟩ := (turn_spelled ready).finds token found other
    exact inductionHypothesis finds.ready failed

/-- The tokens of a text. -/
abbrev textTokens (sql : Text) : List Token :=
  (tokensBetween sql 0 sql.length).tokens

/-- The tokens of a whole text stand one behind the other, and only the text can be to blame where there are none. -/
theorem wholeTokens (sql : Text) :
    TokensOrdered (textTokens sql) sql.length ∧
      (∀ failure, (tokensBetween sql 0 sql.length).failure = some failure → failure.OfText) ∧
      (textTokens sql).length ≤ sql.length := by
  have ready : Scanner.Ready { sql := sql, pos := 0 } sql := ⟨List.suffix_rfl, (Nat.sub_self _).symm, rfl, rfl⟩
  have run : tokensBetween sql 0 sql.length = Scanner.tokenRun { sql := sql, pos := 0 } := by
    rw [tokensBetween, scannerInit, if_neg (Nat.not_lt_zero _), List.take_length]
  obtain ⟨inside, apart⟩ := (tokenRun_spelled ready).ordered ready
  have ordered : TokensOrdered (textTokens sql) sql.length := by
    unfold textTokens
    rw [run]
    exact ⟨fun token listed => (inside token listed).2, apart⟩
  refine ⟨ordered, fun failure failed => .inl ?_, ordered.length_le⟩
  rw [run] at failed
  exact tokenRun_code ready failed

end scan

/-! ## One reading -/

section passes

variable {memory : Nat → Bool} {maxStatementCount : Nat} {sql : Text} {tokens : List Token} {state : ControlState}

theorem allocate_ok {counts : ControlCounts} (allocated : controlStateAllocate memory maxStatementCount counts = .ok state) :
    state = zeroState counts ∧ (maxStatementCount > 0 → counts.slots.unit ≤ maxStatementCount ∧
      counts.slots.node ≤ maxStatementCount ∧ counts.slots.item ≤ maxStatementCount) := by
  unfold controlStateAllocate at allocated
  split_ifs at allocated with roots statements
  split at allocated
  next => cases allocated
  next total bytes =>
    split_ifs at allocated
    cases allocated
    exact ⟨rfl, fun limited => by omega⟩

/-- Counts with no more roots than items are refused for their size only. -/
theorem allocate_fails {counts : ControlCounts} {failure : Failure} (roots : counts.rootCount ≤ counts.slots.item)
    (failed : controlStateAllocate memory maxStatementCount counts = .error failure) :
    failure.error.code = .resourceLimit ∨ failure = noMemory := by
  unfold controlStateAllocate at failed
  rw [if_neg (Nat.not_lt_of_le roots)] at failed
  split_ifs at failed
  · cases failed
    exact .inl rfl
  · cases failed
    exact .inl rfl
  · cases failed
    exact .inl rfl
  · split at failed
    next =>
      cases failed
      exact .inl rfl
    next =>
      split_ifs at failed
      cases failed
      exact .inr rfl

/-- The three passes are one reading of the text, whose trees are then laid out. -/
theorem parseTokens_eq {size : Nat} (ordered : TokensOrdered tokens size) (few : tokens.length ≤ sizeMax / tokenSize) :
    parseTokens memory maxStatementCount sql tokens = readRoots sql tokens >>= fun found =>
      (controlStateAllocate memory maxStatementCount found.trees.counts).map fun _ => found.trees.state tokens := by
  unfold parseTokens
  cases read : readRoots sql tokens with
  | error failure =>
    have large : tokens.length + 2 ≤ sizeMax := by
      unfold sizeMax tokenSize at *
      omega
    rw [countPass_fails ordered large read]
    rfl
  | ok found =>
    rw [countPass_ok ordered few read, ok_bind, ok_bind]
    cases allocated : controlStateAllocate memory maxStatementCount found.trees.counts with
    | error failure => rfl
    | ok state =>
      obtain ⟨rfl, -⟩ := allocate_ok allocated
      rw [ok_bind, layoutPass_ok ordered read, ok_bind, fillPass_ok ordered read]
      rfl

theorem controlScan_some (scanned : controlScan memory sql = .ok (some tokens)) :
    tokens = textTokens sql ∧ tokens.length ≤ sizeMax / tokenSize := by
  unfold controlScan at scanned
  dsimp only at scanned
  cases failed : (tokensBetween sql 0 sql.length).failure with
  | some failure =>
    rw [failed] at scanned
    split_ifs at scanned
  | none =>
    rw [failed] at scanned
    dsimp only at scanned
    split_ifs at scanned with counted none large enough
    · cases scanned
    · cases scanned
      exact ⟨rfl, Nat.le_of_not_lt large⟩

/-- Parsing control flow is reading the text once and laying its trees out: none of the checks between the passes,
on layouts, references and counts, ever fails. -/
theorem control_parse_reads_once (memory : Nat → Bool) (maxStatementCount : Nat) (sql : Text) :
    controlParse memory maxStatementCount sql = controlScan memory sql >>= fun scanned =>
      match scanned with
      | none => .ok none
      | some tokens => readRoots sql tokens >>= fun found =>
          (controlStateAllocate memory maxStatementCount found.trees.counts).map fun _ =>
            some (found.trees.state tokens) := by
  unfold controlParse
  cases scanned : controlScan memory sql with
  | error failure => rfl
  | ok result =>
    rw [ok_bind, ok_bind]
    cases result with
    | none => rfl
    | some tokens =>
      obtain ⟨rfl, few⟩ := controlScan_some scanned
      dsimp only
      rw [parseTokens_eq (wholeTokens sql).1 few]
      cases readRoots sql (textTokens sql) with
      | error failure => rfl
      | ok found =>
        rw [ok_bind, ok_bind]
        cases controlStateAllocate memory maxStatementCount found.trees.counts with
        | error failure => rfl
        | ok state => rfl

/-- The trees behind a returned state. -/
structure Built (maxStatementCount : Nat) (sql : Text) (state : ControlState) (found : ReadAll) : Prop where
  read : readRoots sql (textTokens sql) = .ok found
  few : (textTokens sql).length ≤ sizeMax / tokenSize
  state : state = found.trees.state (textTokens sql)
  limited : maxStatementCount > 0 → found.trees.size.unit ≤ maxStatementCount ∧
    found.trees.size.node ≤ maxStatementCount ∧ found.trees.size.item ≤ maxStatementCount

theorem controlParse_built (parsed : controlParse memory maxStatementCount sql = .ok (some state)) :
    ∃ found, Built maxStatementCount sql state found := by
  obtain ⟨scanned, scan, rest⟩ := bind_ok parsed
  cases scanned with
  | none => cases rest
  | some tokens =>
    obtain ⟨rfl, few⟩ := controlScan_some scan
    dsimp only at rest
    obtain ⟨built, passed, same⟩ := map_ok rest
    cases same
    rw [parseTokens_eq (wholeTokens sql).1 few] at passed
    obtain ⟨found, read, laidOut⟩ := bind_ok passed
    obtain ⟨zeroed, allocated, isState⟩ := map_ok laidOut
    exact ⟨found, read, few, isState.symm, (allocate_ok allocated).2⟩

variable {found : ReadAll}

theorem Built.lengths (built : Built maxStatementCount sql state found) :
    sizes state = found.trees.size ∧ state.indexPool.length = state.branches.length + state.items.length := by
  obtain ⟨slots, pool, -⟩ := @ControlTrees.state_sizes (textTokens sql) found.trees
  rw [← built.state] at slots pool
  refine ⟨slots, pool.trans ?_⟩
  rw [← slots]
  rfl

theorem Built.encodes (built : Built maxStatementCount sql state found) : state.EncodesForest := by
  rw [built.state]
  exact state_encodes built.read

theorem Built.mapped (built : Built maxStatementCount sql state found) :
    UnitsMapped state.units.length sql.length state.units := by
  rw [built.state]
  exact state_mapped (wholeTokens sql).1 built.read

/-- No two units share a place of the text. -/
theorem unit_unique {statementCount size : Nat} {units : List ControlUnit} (mapped : UnitsMapped statementCount size units)
    {unit other : ControlUnit} (listed : unit ∈ units) (isOther : other ∈ units) {place : Nat}
    (inside : unit.sourceOffset ≤ place ∧ place < unit.stop) (both : other.sourceOffset ≤ place ∧ place < other.stop) :
    unit = other := by
  obtain ⟨left, leftInside, rfl⟩ := List.getElem_of_mem listed
  obtain ⟨right, rightInside, rfl⟩ := List.getElem_of_mem isOther
  have sorted := List.pairwise_iff_getElem.mp mapped.sorted
  obtain before | same | behind := Nat.lt_trichotomy left right
  · have := sorted left right leftInside rightInside before
    omega
  · subst same
    rfl
  · have := sorted right left rightInside leftInside behind
    omega

/-- Where control flow is parsed, every node, branch, item and unit is reached from the roots exactly once, no IF is
nested too deep, the spans of the roots, nodes and branches fill the index pool without a gap or an overlap, and the
units, in the order of the text, stand for the statements of the AST in their order. -/
theorem control_parse_forest (parsed : controlParse memory maxStatementCount sql = .ok (some state)) :
    state.EncodesForest ∧ UnitsMapped state.units.length sql.length state.units ∧
      state.units.map ControlUnit.astStatementIndex = List.range state.units.length ∧
      state.indexPool.length = state.branches.length + state.items.length ∧
      Tiles (state.roots :: (state.nodes.map ControlNode.branches ++ state.branches.map ControlBranch.items)) 0
        state.indexPool.length ∧
      (maxStatementCount > 0 → state.units.length ≤ maxStatementCount ∧ state.nodes.length ≤ maxStatementCount ∧
        state.items.length ≤ maxStatementCount) := by
  obtain ⟨found, built⟩ := controlParse_built parsed
  obtain ⟨slots, pool⟩ := built.lengths
  refine ⟨built.encodes, built.mapped, ?_, pool, ?_, fun limited => ?_⟩
  · rw [built.state]
    exact state_indexes found.trees
  · rw [built.state]
    exact state_tiles found.trees
  · have limits := built.limited limited
    rw [← slots] at limits
    exact limits

/-- The condition and the statement of a short text. -/
theorem oneBranch_parsed : controlParse (fun _ => true) 0 (ascii "IF a=1 SELECT x;") = .ok (some oneBranch) := by
  decide +kernel

theorem control_parse_forest_one_branch :
    oneBranch.EncodesForest ∧ UnitsMapped 2 16 oneBranch.units :=
  have forest := control_parse_forest oneBranch_parsed
  ⟨forest.1, forest.2.1⟩

/-- The units of a text cover its tokens: each is inside exactly one unit, or is a semicolon or a word of the control
flow outside of all of them. -/
theorem control_parse_covers_tokens (parsed : controlParse memory maxStatementCount sql = .ok (some state)) :
    ∀ token ∈ textTokens sql,
      (∃! unit, unit ∈ state.units ∧ unit.sourceOffset ≤ token.start ∧ token.stop ≤ unit.stop) ∨
        ((token.isSymbol Byte.semicolon ∨ ∃ word ∈ ["if", "else", "begin", "end"], tokenWordEqual sql token word) ∧
          ∀ unit ∈ state.units, unit.stop ≤ token.start ∨ token.stop ≤ unit.sourceOffset) := by
  obtain ⟨found, built⟩ := controlParse_built parsed
  have ordered := (wholeTokens sql).1
  obtain ⟨sound, atEnd⟩ := readRoots_sound built.read
  have isUnit {unit : ControlUnit} (listed : unit ∈ state.units) : ∃ index, ∃ span ∈ found.trees.units,
      unit = unitOf (textTokens sql) span.kind index span.start span.stop ∧ span.start < span.stop ∧
        unit.stop = (tokenAt (textTokens sql) (span.stop - 1)).stop ∧ span.stop ≤ (textTokens sql).length := by
    rw [built.state, state_units] at listed
    obtain ⟨index, inside, rfl⟩ := List.mem_mapIdx.mp listed
    have isSpan := List.getElem_mem inside
    obtain ⟨-, forward, -, last⟩ := sound.covers.inside _ isSpan
    exact ⟨index, _, isSpan, rfl, forward, unitOf_stop ordered forward last, last⟩
  intro token isToken
  obtain ⟨index, inside, rfl⟩ := List.getElem_of_mem isToken
  have here := tokenAt_of_lt inside
  by_cases within : ∃ span ∈ found.trees.units, span.start ≤ index ∧ index < span.stop
  · obtain ⟨span, isSpan, first, last⟩ := within
    obtain ⟨place, placed, rfl⟩ := List.getElem_of_mem isSpan
    obtain ⟨-, forward, -, bound⟩ := sound.covers.inside _ isSpan
    have listed : unitOf (textTokens sql) found.trees.units[place].kind place found.trees.units[place].start
        found.trees.units[place].stop ∈ state.units := by
      rw [built.state, state_units]
      exact List.mem_mapIdx.mpr ⟨place, placed, rfl⟩
    have own := (ordered.inside _ isToken).1
    have begins := (ordered.start_le first inside).1
    have ends := (@TokensOrdered.start_le _ _ index (found.trees.units[place].stop - 1) ordered (by omega) (by omega)).2
    rw [here] at begins ends
    have stop := @unitOf_stop (textTokens sql) _ place _ _ found.trees.units[place].kind ordered forward bound
    refine .inl ⟨_, ⟨listed, begins, by rw [stop]; exact ends⟩, fun other isOther => ?_⟩
    exact unit_unique built.mapped isOther.1 listed ⟨isOther.2.1, own.trans_le isOther.2.2⟩
      ⟨begins, own.trans_le (by rw [stop]; exact ends)⟩
  · refine .inr ⟨?_, fun unit listed => ?_⟩
    · obtain separates | spans := sound.covers.complete (Nat.zero_le index) (by rw [atEnd]; exact inside)
      · simpa [isMark, tokenSymbol, tokenWord, inside] using separates
      · exact absurd spans within
    · obtain ⟨place, span, isSpan, rfl, forward, stop, last⟩ := isUnit listed
      rw [stop, ← here]
      by_cases before : index < span.start
      · exact .inr (ordered.before before (by omega))
      · have behind : span.stop ≤ index := by
          by_contra inner
          exact within ⟨span, isSpan, by omega, by omega⟩
        exact .inl (ordered.before (by omega) inside)

theorem control_parse_covers_tokens_one_branch :
    (textTokens (ascii "IF a=1 SELECT x;")).length = 7 ∧ ∀ token ∈ textTokens (ascii "IF a=1 SELECT x;"),
      (∃! unit, unit ∈ oneBranch.units ∧ unit.sourceOffset ≤ token.start ∧ token.stop ≤ unit.stop) ∨
        ((token.isSymbol Byte.semicolon ∨ ∃ word ∈ ["if", "else", "begin", "end"],
            tokenWordEqual (ascii "IF a=1 SELECT x;") token word) ∧
          ∀ unit ∈ oneBranch.units, unit.stop ≤ token.start ∨ token.stop ≤ unit.sourceOffset) :=
  ⟨by decide +kernel, control_parse_covers_tokens oneBranch_parsed⟩

/-- A returned state is refused for having no node, or for its AST, and for nothing else. -/
theorem control_parse_valid_iff (parsed : controlParse memory maxStatementCount sql = .ok (some state))
    (ast : Except Error (List (Option ControlRawStmt))) :
    validateState ast sql.length state = .ok () ↔
      state.nodes ≠ [] ∧ ∃ stmts, ast = .ok stmts ∧ stmts.length = state.units.length ∧
        ∀ unit ∈ state.units, unitAstFits unit (stmts[unit.astStatementIndex]?).join := by
  obtain ⟨found, built⟩ := controlParse_built parsed
  obtain ⟨slots, pool⟩ := built.lengths
  have forest := built.encodes
  rw [validateState_iff]
  constructor
  · rintro ⟨complete, stmts, hasAst, sameCount, -, -, -, -, -, -, units, -⟩
    have sameCount := Decidable.not_not.mp sameCount
    simp only [not_or] at complete
    exact ⟨fun none => complete.2.1 (congrArg List.length none), stmts, hasAst, sameCount,
      ((validateUnits_mapped sameCount).mp units).2⟩
  · rintro ⟨some, stmts, hasAst, sameCount, fits⟩
    have node : state.nodes.length ≠ 0 := fun none => some (List.eq_nil_of_length_eq_zero none)
    have complete := EncodesForest.complete forest node
    obtain ⟨branchesValid, itemsValid⟩ := EncodesForest.spans forest
    have counts : (state.nodes.map fun node => node.branches.count).sum = state.branches.length ∧
        state.roots.count + (state.branches.map fun branch => branch.items.count).sum = state.items.length := by
      obtain ⟨valid, visits, unfolds, perm⟩ := forest
      exact forest_counts valid unfolds perm
    have branches := @countReferences_of state (state.nodes.map ControlNode.branches) 0
      (invalidState "control branch span is invalid") (List.forall_mem_map.mpr branchesValid)
    have items := @countReferences_of state (state.branches.map ControlBranch.items) state.roots.count
      (invalidState "control item span is invalid") (List.forall_mem_map.mpr itemsValid)
    simp only [List.map_map, Function.comp_def, counts.1, counts.2, Nat.zero_add] at branches items
    -- none of the numbers comes near the largest one
    have few (slot : ControlSlot) : (sizes state).get slot ≤ sizeMax / tokenSize := by
      rw [slots]
      exact (counts_few built.few built.read).1 slot
    have nodeFew := few .node
    have branchFew := few .branch
    have itemFew := few .item
    have unitFew := few .unit
    dsimp only [Tally.get, sizes] at nodeFew branchFew itemFew unitFew
    unfold sizeMax tokenSize at nodeFew branchFew itemFew unitFew
    refine ⟨?_, stmts, hasAst, not_not.mpr sameCount, state.branches.length, branches ?_, state.items.length, items ?_, ?_,
      ?_, (validateUnits_mapped sameCount).mpr ⟨sameCount ▸ built.mapped, fits⟩, (walk_iff forest.1).mpr forest⟩
    · simp only [not_or]
      exact ⟨complete.1, node, complete.2.1, complete.2.2.1, complete.2.2.2, by simpa using forest.1⟩
    · unfold sizeMax
      omega
    · unfold sizeMax
      omega
    · unfold sizeMax
      simp only [not_or, not_not]
      exact ⟨trivial, trivial, by omega, pool.symm⟩
    · unfold scratchCount sizeMax
      omega

/-- Two statements, of which the second one is no control flow. -/
def dropIfExistsState : ControlState where
  roots := ⟨0, 2⟩
  nodes := []
  branches := []
  items := [⟨.statement, 0⟩, ⟨.statement, 1⟩]
  indexPool := [0, 1]
  units := [⟨.statement, 0, 0, 8⟩, ⟨.statement, 1, 9, 22⟩]

/-- A DROP IF EXISTS behind a statement without a semicolon is taken for control flow, and refused for having none. -/
theorem control_parse_valid_iff_drop :
    controlParse (fun _ => true) 0 (ascii "SELECT 1\nDROP TABLE\nIF EXISTS t") = .ok (some dropIfExistsState) ∧
      validateState (.ok [some ⟨some (.selectStmt none)⟩, some ⟨some .other⟩]) 31 dropIfExistsState ≠ .ok () := by
  have parsed : controlParse (fun _ => true) 0 (ascii "SELECT 1\nDROP TABLE\nIF EXISTS t") =
      .ok (some dropIfExistsState) := by decide +kernel
  refine ⟨parsed, fun valid => ?_⟩
  exact ((control_parse_valid_iff parsed _).mp valid).1 rfl

/-- Every failure blames the text, or memory. -/
theorem control_parse_blames_text {failure : Failure} (held : sql.length ≤ sizeMax / tokenSize)
    (failed : controlParse memory maxStatementCount sql = .error failure) : failure.OfText ∨ failure = noMemory := by
  have inside := (wholeTokens sql).2.2
  have few : (textTokens sql).length ≤ sizeMax / tokenSize := inside.trans held
  have counted : (textTokens sql).length ≤ sizeMax := few.trans (Nat.div_le_self _ _)
  obtain scan | ⟨scanned, scan, rest⟩ := bind_error failed
  · unfold controlScan at scan
    dsimp only at scan
    rw [if_neg (Nat.not_lt_of_le counted)] at scan
    split at scan
    next other unclosed =>
      cases scan
      exact .inl ((wholeTokens sql).2.1 failure unclosed)
    next =>
      split_ifs at scan with none large enough
      · exact absurd few (Nat.not_le_of_lt large)
      · cases scan
        exact .inr rfl
  · cases scanned with
    | none => cases rest
    | some tokens =>
      obtain ⟨rfl, -⟩ := controlScan_some scan
      have passes := map_error rest
      rw [parseTokens_eq (wholeTokens sql).1 few] at passes
      obtain unread | ⟨found, -, laidOut⟩ := bind_error passes
      · exact .inl (readRoots_blames failure unread)
      · have refs := found.trees.refs_eq
        have roots : found.trees.counts.rootCount ≤ found.trees.counts.slots.item := by
          dsimp only [ControlTrees.counts]
          omega
        obtain limit | noRoom := allocate_fails roots (map_error laidOut)
        · exact .inl (.inr (.inr limit))
        · exact .inr noRoom

theorem control_parse_blames_text_else : ∃ failure,
    controlParse (fun _ => true) 0 (ascii "ELSE") = .error failure ∧ (failure.OfText ∨ failure = noMemory) := by
  have failed : controlParse (fun _ => true) 0 (ascii "ELSE") =
      .error (elseUnmatched (ascii "ELSE") (textTokens (ascii "ELSE")) 0) := by decide +kernel
  exact ⟨_, failed, control_parse_blames_text (by decide) failed⟩

end passes

/-! ## Writing the text back -/

section writing

open SqlParser.Library.Splice

variable {dialect : Dialect} {sources : UnitSources} {sql : Text}

/-- The source of a unit. -/
def unitSource (sql : Text) (unit : ControlUnit) : Text :=
  bytesFrom sql unit.sourceOffset unit.sourceLength

theorem renderings_own {index : Nat} {units : List ControlUnit}
    (own : ∀ place (inside : place < units.length),
      renderUnit dialect sources sql (index + place) units[place] = .ok (unitSource sql units[place])) :
    renderings dialect sources sql index units = .ok (units.map (unitSource sql)) := by
  induction units generalizing index with
  | nil => rfl
  | cons unit units inductionHypothesis =>
    have later := @inductionHypothesis (index + 1) fun place inside => by
      have found := own (place + 1) (Nat.succ_lt_succ inside)
      rw [Nat.add_assoc, Nat.add_comm 1 place]
      exact found
    have first := own 0 (Nat.succ_pos _)
    rw [renderings, show renderUnit dialect sources sql index unit = _ from first, later]
    rfl

/-- Units that are replaced by their sources leave the text. -/
theorem splice_own {sourceOffset : Nat} {units : List ControlUnit} (ordered : UnitsFrom sql.length sourceOffset units) :
    splice sql sourceOffset (unitEdits units (units.map (unitSource sql))) = sql.drop sourceOffset := by
  induction units generalizing sourceOffset with
  | nil => rfl
  | cons unit units inductionHypothesis =>
    have later := inductionHypothesis ordered.2
    have first := ordered.1
    unfold unitEdits at later ⊢
    rw [List.map_cons, List.zipWith_cons_cons, splice, later]
    have own : unitSource sql unit ++ sql.drop unit.stop = sql.drop unit.sourceOffset := by
      rw [unitSource, bytesFrom, ControlUnit.stop, ← List.drop_drop, List.take_append_drop]
    rw [List.append_assoc, own]
    have gap : sql.drop unit.sourceOffset = (sql.drop sourceOffset).drop (unit.sourceOffset - sourceOffset) := by
      rw [List.drop_drop, Nat.add_sub_cancel' first]
    rw [List.drop_take, gap, List.take_append_drop]

variable {memory : Nat → Bool} {maxStatementCount limit : Nat} {state : ControlState} {allocator : Allocator}
  {units : List PlacedUnit}

/-- Units that are rendered as they are. -/
def ownSources : UnitSources where
  statementNode _ := .ok none
  render index _ := .ok (some (if index = 0 then ascii "a=1" else ascii "SELECT x"))

end writing

end SqlParser.Sqlserver
