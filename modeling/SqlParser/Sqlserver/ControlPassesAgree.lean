import SqlParser.Sqlserver.ControlParserSteps

/-! # The passes of the control-flow parser agree

Every pass reads the same tree, takes the entries of the tree in the same order, and stores what
the tree says.  A pass over a state that the counts fit therefore goes through.
-/

namespace SqlParser.Sqlserver

open SqlParser.Core
open SqlParser.Library.WriteLog

/-! ## Where the loops stop -/

section loops

variable {sql : Text} {tokens : List Token}

theorem leafEnd_bounds {start blockDepth remaining effective index stop : Nat}
    (found : leafEnd sql tokens start blockDepth remaining effective index = .ok stop) :
    index ≤ stop ∧ stop ≤ index + remaining := by
  induction remaining generalizing effective index with
  | zero =>
    cases found
    exact ⟨Nat.le_refl _, Nat.le_refl _⟩
  | succ remaining inductionHypothesis =>
    have later {effective : Nat} (found : leafEnd sql tokens start blockDepth remaining effective (index + 1) = .ok stop) :
        index ≤ stop ∧ stop ≤ index + (remaining + 1) := by
      have := inductionHypothesis found
      omega
    rw [leafEnd] at found
    dsimp only at found
    split_ifs at found
    all_goals first | exact later found | (cases found; exact ⟨Nat.le_refl _, Nat.le_add_right _ _⟩)

theorem branchStart_bounds {conditionStart blockDepth remaining index start : Nat}
    (found : branchStart sql tokens conditionStart blockDepth remaining index = .ok (some start)) :
    index ≤ start ∧ start < index + remaining ∧ start ≠ conditionStart := by
  induction remaining generalizing index with
  | zero => cases found
  | succ remaining inductionHypothesis =>
    have later (found : branchStart sql tokens conditionStart blockDepth remaining (index + 1) = .ok (some start)) :
        index ≤ start ∧ start < index + (remaining + 1) ∧ start ≠ conditionStart := by
      have := inductionHypothesis found
      omega
    rw [branchStart] at found
    split_ifs at found with below ends passes first
    · exact later found
    · cases found
    · exact later found
    · cases found
      exact ⟨Nat.le_refl _, Nat.lt_add_of_pos_right (Nat.succ_pos _), first⟩

theorem behindSemicolons_bounds (blockDepth remaining index : Nat) :
    index ≤ behindSemicolons tokens blockDepth remaining index ∧
      behindSemicolons tokens blockDepth remaining index ≤ index + remaining ∧
      ∀ passed, index ≤ passed → passed < behindSemicolons tokens blockDepth remaining index →
        tokenSymbol tokens passed Byte.semicolon := by
  induction remaining generalizing index with
  | zero => exact ⟨Nat.le_refl _, Nat.le_refl _, fun passed atLeast before => absurd atLeast (Nat.not_le_of_lt before)⟩
  | succ remaining inductionHypothesis =>
    rw [behindSemicolons]
    split_ifs with here
    · obtain ⟨first, last, symbols⟩ := inductionHypothesis (index + 1)
      refine ⟨by omega, by omega, fun passed atLeast before => ?_⟩
      obtain rfl | later := Nat.eq_or_lt_of_le atLeast
      · exact (Bool.and_eq_true_iff.mp here).2
      · exact symbols passed later before
    · exact ⟨Nat.le_refl _, Nat.le_add_right _ _, fun passed atLeast before => absurd atLeast (Nat.not_le_of_lt before)⟩

/-- The tokens stand one behind the other in the text. -/
structure TokensOrdered (tokens : List Token) (size : Nat) : Prop where
  inside : ∀ token ∈ tokens, token.start < token.stop ∧ token.stop ≤ size
  apart : tokens.Pairwise fun left right => left.stop ≤ right.start

theorem tokenAt_of_lt {index : Nat} (inside : index < tokens.length) : tokenAt tokens index = tokens[index] := by
  rw [tokenAt, List.getElem?_eq_getElem inside, Option.getD_some]

theorem TokensOrdered.before {size first last : Nat} (ordered : TokensOrdered tokens size) (before : first < last)
    (inside : last < tokens.length) : (tokenAt tokens first).stop ≤ (tokenAt tokens last).start := by
  rw [tokenAt_of_lt inside, tokenAt_of_lt (before.trans inside)]
  exact List.pairwise_iff_getElem.mp ordered.apart first last _ inside before

theorem TokensOrdered.start_le {size first last : Nat} (ordered : TokensOrdered tokens size) (before : first ≤ last)
    (inside : last < tokens.length) :
    (tokenAt tokens first).start ≤ (tokenAt tokens last).start ∧ (tokenAt tokens first).stop ≤ (tokenAt tokens last).stop := by
  have own {index : Nat} (inside : index < tokens.length) : (tokenAt tokens index).start < (tokenAt tokens index).stop := by
    rw [tokenAt_of_lt inside]
    exact (ordered.inside _ (List.getElem_mem inside)).1
  obtain rfl | later := Nat.eq_or_lt_of_le before
  · exact ⟨Nat.le_refl _, Nat.le_refl _⟩
  · have gap := ordered.before later inside
    have here := own (later.trans inside)
    have there := own inside
    omega

/-- Every token takes a byte at least. -/
theorem TokensOrdered.length_le {size : Nat} (ordered : TokensOrdered tokens size) : tokens.length ≤ size := by
  have ends (index : Nat) (inside : index < tokens.length) : index < tokens[index].stop := by
    induction index with
    | zero =>
      have := (ordered.inside _ (List.getElem_mem inside)).1
      omega
    | succ index inductionHypothesis =>
      have before := inductionHypothesis (by omega)
      have gap := List.pairwise_iff_getElem.mp ordered.apart index (index + 1) (by omega) inside (Nat.lt_succ_self index)
      have := (ordered.inside _ (List.getElem_mem inside)).1
      omega
  by_contra longer
  have last := ends (tokens.length - 1) (by omega)
  have inside := (ordered.inside _ (List.getElem_mem (show tokens.length - 1 < tokens.length by omega))).2
  omega

/-- The text of some tokens is not empty. -/
theorem TokensOrdered.forward {size start stop : Nat} (ordered : TokensOrdered tokens size) (before : start < stop)
    (inside : stop ≤ tokens.length) : (tokenAt tokens start).start < (tokenAt tokens (stop - 1)).stop := by
  have startInside : start < tokens.length := by omega
  have first : (tokenAt tokens start).start < (tokenAt tokens start).stop := by
    rw [tokenAt_of_lt startInside]
    exact (ordered.inside _ (List.getElem_mem startInside)).1
  obtain rfl | later : start = stop - 1 ∨ start < stop - 1 := by omega
  · exact first
  · have gap := ordered.before later (by omega)
    have last : (tokenAt tokens (stop - 1)).start < (tokenAt tokens (stop - 1)).stop := by
      rw [tokenAt_of_lt (show stop - 1 < tokens.length by omega)]
      exact (ordered.inside _ (List.getElem_mem _)).1
    omega

end loops

/-! ## Steps of the parser -/

theorem bind_ok {Value Result : Type} {first : Except Failure Value} {next : Value → Except Failure Result}
    {result : Result} (done : (first >>= next) = .ok result) : ∃ value, first = .ok value ∧ next value = .ok result := by
  cases first with
  | error failure => cases done
  | ok value => exact ⟨value, rfl, done⟩

theorem ok_bind {Value Result : Type} {value : Value} {next : Value → Except Failure Result} :
    ((.ok value : Except Failure Value) >>= next) = next value := rfl

theorem map_ok {Value Result : Type} {first : Except Failure Value} {change : Value → Result} {result : Result}
    (done : first.map change = .ok result) : ∃ value, first = .ok value ∧ change value = result := by
  cases first with
  | error failure => cases done
  | ok value => exact ⟨value, rfl, Except.ok.inj done⟩

/-! ## Where a tree is read, the parser goes through with room -/

/-- A step of a parser does what the tree says, and returns an index. -/
def Follows (parse : ControlParser → Except Failure Reached) (read : Nat → Except Failure Read)
    (index : Cursors → ControlTree → Nat) (progress : Cursors → ControlTree → Progress) : Prop :=
  ∀ {parser cursors found}, parser.At cursors → read parser.pos = .ok found →
    parser.Room (progress cursors found.tree) →
    parse parser = .ok ⟨index cursors found.tree, parser.after found.pos (progress cursors found.tree)⟩

section follows

variable {sql : Text} {tokens : List Token} {size : Nat} (ordered : TokensOrdered tokens size)

/-- A step of the parser on a tree below its item. -/
abbrev FollowsTree (tokens : List Token) (parse : ControlParser → Except Failure Reached)
    (read : Nat → Except Failure Read) : Prop :=
  Follows parse read (fun cursors tree => tree.index cursors.slots) fun cursors tree => tree.progress tokens cursors

/-- A step of the parser on a tree with its item. -/
abbrev FollowsItem (tokens : List Token) (parse : ControlParser → Except Failure Reached)
    (read : Nat → Except Failure Read) : Prop :=
  Follows parse read (fun cursors _ => cursors.slots.item) fun cursors tree => tree.itemProgress tokens cursors

include ordered in
theorem parseLeaf_follows (blockDepth : Nat) :
    FollowsTree tokens (parseLeaf sql tokens blockDepth) (readLeaf sql tokens blockDepth) := by
  intro parser cursors found at_ read room
  obtain ⟨stop, ends, rest⟩ := bind_ok read
  split_ifs at rest with empty
  cases rest
  have bounds := leafEnd_bounds ends
  dsimp only at room ⊢
  rw [ControlTree.progress] at room ⊢
  unfold parseLeaf
  have moved := @ControlParser.moved_eq parser stop
  rw [ends, ok_bind, if_neg empty, moved]
  have forward := ordered.forward (show parser.pos < stop by omega) (by omega)
  rw [reserveUnit_ok at_.moved forward room.moved, after_after, Progress.empty_append, after_pos]
  rfl

theorem readLeaf_kind {blockDepth pos : Nat} {found : Read} (read : readLeaf sql tokens blockDepth pos = .ok found) :
    found.tree.kind = .statement := by
  obtain ⟨stop, -, rest⟩ := bind_ok read
  split_ifs at rest
  cases rest
  rfl

include ordered in
theorem parseItem_follows {parseIf : ControlParser → Except Failure Reached} {readIf : Nat → Except Failure Read}
    (follows : FollowsTree tokens parseIf readIf) (kind : ∀ {pos found}, readIf pos = .ok found → found.tree.kind = .node)
    (blockDepth : Nat) :
    FollowsItem tokens (parseItem sql tokens parseIf blockDepth) (readItem sql tokens readIf blockDepth) := by
  intro parser cursors found at_ read room
  unfold ControlTree.itemProgress at room
  have reserved := reserve_ok "item" at_ room.left.left
  have here : (parser.after parser.pos { size := .one .item }).At (cursors.past { size := .one .item }) := at_.after
  have inside := room.left.right parser.pos
  unfold parseItem ControlParser.reserveItem
  rw [reserved, ok_bind]
  dsimp only
  unfold readItem at read
  split_ifs at read ⊢ with isIf
  · have target := follows here (by rw [after_pos]; exact read) inside
    rw [target, ok_bind]
    dsimp only
    rw [fill_eq fun _ => rfl, after_pos, after_after, after_after, ← Progress.append_assoc, ← kind read]
    rfl
  · have target := parseLeaf_follows ordered blockDepth here (by rw [after_pos]; exact read) inside
    rw [target, ok_bind]
    dsimp only
    rw [fill_eq fun _ => rfl, after_pos, after_after, after_after, ← Progress.append_assoc, ← readLeaf_kind read]
    rfl

/-- The references of the items stand from a place of the pool on. -/
theorem parseSequence_follows {parseItem : ControlParser → Except Failure Reached} {readItem : Nat → Except Failure Read}
    (follows : FollowsItem tokens parseItem readItem) (blockDepth : Nat) (stopAtEnd : Bool) {refOffset turns count place : Nat}
    {parser : ControlParser} {cursors : Cursors} {found : ReadAll} (at_ : parser.At cursors)
    (read : readSequence sql tokens readItem blockDepth stopAtEnd turns parser.pos = .ok found)
    (room : parser.Room (found.trees.progress tokens place cursors))
    (own : parser.mode = .fill → place = refOffset + count ∧ place + found.trees.count ≤ parser.state.indexPool.length) :
    parseSequence sql tokens parseItem blockDepth stopAtEnd refOffset turns count parser =
      .ok ⟨count + found.trees.count, parser.after found.pos (found.trees.progress tokens place cursors)⟩ := by
  induction turns generalizing count place parser cursors found with
  | zero =>
    rw [readSequence] at read
    rw [parseSequence]
    split_ifs at read ⊢
    cases read
    rw [ControlParser.moved_eq]
    rfl
  | succ turns inductionHypothesis =>
    rw [readSequence] at read
    rw [parseSequence]
    split_ifs at read ⊢
    · cases read
      rw [ControlParser.moved_eq]
      rfl
    · obtain ⟨item, readHead, rest⟩ := bind_ok read
      obtain ⟨others, readOthers, rest⟩ := bind_ok rest
      cases rest
      dsimp only at room own ⊢
      rw [ControlTrees.progress_cons] at room ⊢
      dsimp only at room ⊢
      rw [ControlParser.moved_eq]
      have head := follows at_.moved (by rw [after_pos]; exact readHead) room.left.left.moved
      rw [head, ok_bind, after_after, Progress.empty_append]
      dsimp only
      have length : (ControlTrees.cons item.tree others.trees).count = others.trees.count + 1 := rfl
      rw [length] at own
      rw [@refer_ok _ refOffset count place cursors.slots.item fun filling => by
        rw [after_mode] at filling
        have := own filling
        rw [after_pool filling]
        omega]
      rw [ok_bind, after_pos, after_after]
      have later := @inductionHypothesis (count + 1) (place + 1) _ _ others at_.after (by rw [after_pos]; exact readOthers)
        (room.right item.pos) fun filling => by
          rw [after_mode] at filling
          have := own filling
          rw [after_pool filling]
          omega
      rw [later, after_after, length]
      congr 2
      omega

theorem parseBranchBody_follows {parseItem : Nat → ControlParser → Except Failure Reached}
    {readItem : Nat → Nat → Except Failure Read}
    (follows : ∀ blockDepth, FollowsItem tokens (parseItem blockDepth) (readItem blockDepth)) (blockDepth : Nat)
    {branch : Nat} {parser : ControlParser} {cursors : Cursors} {found : ReadAll} (at_ : parser.At cursors)
    (read : readBranchBody sql tokens readItem blockDepth parser.pos = .ok found)
    (room : parser.Room (found.trees.bodyProgress tokens branch cursors)) :
    parseBranchBody sql tokens parseItem branch blockDepth parser =
      .ok (parser.after found.pos (found.trees.bodyProgress tokens branch cursors)) := by
  unfold ControlTrees.bodyProgress at room ⊢
  have counted (filling : parser.mode = .fill) : ControlWrite.Holds parser.state (.branchCount branch found.trees.count) :=
    (room.counted filling _ (List.mem_append_right _ List.mem_cons_self)).2
  obtain ⟨claim, claimed, claimedParser, claims⟩ := claimItems_ok at_ room.left.left counted
  have inside := room.left.right parser.pos
  have own (filling : parser.mode = .fill) : cursors.itemRef = claim.refOffset + 0 ∧
      cursors.itemRef + found.trees.count ≤ parser.state.indexPool.length := by
    have fits := room.left.left.itemRefs filling
    rw [at_.itemRef filling] at fits
    exact ⟨(claims filling).2.symm, fits⟩
  unfold readBranchBody at read
  unfold parseBranchBody
  split_ifs at read ⊢ with atEnd block
  · dsimp only at read ⊢
    obtain ⟨items, readItems, rest⟩ := bind_ok read
    split_ifs at rest with unterminated empty
    cases rest
    dsimp only at inside own claims counted ⊢
    rw [claimed, ok_bind, claimedParser, ControlParser.moved_eq]
    have parsed := @parseSequence_follows _ _ _ _ (follows (blockDepth + 1)) (blockDepth + 1) true claim.refOffset _ 0 _ _ _ _
      at_.after.moved (by rw [after_pos]; exact readItems) inside.moved fun filling => by
        rw [after_mode, after_mode] at filling
        rw [after_pool (by rw [after_mode]; exact filling), after_pool filling]
        exact own filling
    rw [parsed, ok_bind]
    dsimp only
    have some : 0 + items.trees.count ≠ 0 := by
      cases trees : items.trees with
      | nil =>
        rw [trees] at empty
        exact absurd rfl empty
      | cons head others => exact Nat.succ_ne_zero _ ∘ (Nat.zero_add _).symm.trans
    rw [after_pos, if_neg unterminated, if_neg some, ControlParser.moved_eq, Nat.zero_add]
    rw [finishBranch_ok]
    · simp only [after_pos, after_after, Progress.append_assoc, Progress.empty_append]
    · intro filling
      rw [after_mode, after_mode, after_mode, after_mode] at filling
      exact (claims filling).1
  · obtain ⟨item, readItem, rest⟩ := bind_ok read
    cases rest
    dsimp only at inside own claims counted ⊢
    rw [ControlTrees.progress_cons] at inside ⊢
    dsimp only at inside ⊢
    have parsed := follows blockDepth at_.after (by rw [after_pos]; exact readItem) inside.left.left
    rw [claimed, ok_bind, claimedParser, parsed, ok_bind]
    dsimp only
    have one : (ControlTrees.cons item.tree .nil).count = 1 := rfl
    rw [one] at own claims
    rw [@refer_ok _ claim.refOffset 0 cursors.itemRef _ fun filling => by
      rw [after_mode, after_mode] at filling
      rw [after_pool (by rw [after_mode]; exact filling), after_pool filling]
      exact own filling]
    rw [ok_bind, one, finishBranch_ok]
    · simp only [after_pos, after_after, Progress.append_assoc]
      rfl
    · intro filling
      rw [after_mode, after_mode, after_mode] at filling
      exact (claims filling).1

theorem readIf_kind {levels pos : Nat} {found : Read} (read : readIf sql tokens levels pos = .ok found) :
    found.tree.kind = .node := by
  cases levels with
  | zero => cases read
  | succ levels =>
    rw [readIf] at read
    dsimp only at read
    split_ifs at read
    obtain ⟨start, -, rest⟩ := bind_ok read
    cases start with
    | none => cases rest
    | some start =>
      dsimp only at rest
      obtain ⟨first, -, rest⟩ := bind_ok rest
      split_ifs at rest
      · obtain ⟨second, -, rest⟩ := bind_ok rest
        cases rest
        rfl
      · cases rest
        rfl

theorem takesNode_parts (branches : Nat) (cursors : Cursors) :
    takesNode branches cursors = ({ size := .one .node } : Progress) ++
      ({ branchRefs := branches, filled := [.nodeOffset cursors.slots.node cursors.branchRef] } : Progress) := by
  ext1 <;> simp [takesNode]

theorem takesFirst_parts (refOffset condition : Nat) (cursors : Cursors) :
    takesFirst refOffset condition cursors = ({ size := .one .branch } : Progress) ++
      ({ filled := [.reference refOffset cursors.slots.branch, .condition cursors.slots.branch condition] } : Progress) := rfl

theorem takesSecond_parts (refOffset : Nat) (cursors : Cursors) :
    takesSecond refOffset cursors = ({ size := .one .branch } : Progress) ++
      ({ filled := [.reference refOffset cursors.slots.branch, .otherwise cursors.slots.branch] } : Progress) := rfl

/-- The steps of the parser from an IF to its first branch. -/
structure HeadSteps (tokens : List Token) (parser : ControlParser) (cursors : Cursors) (branches start : Nat)
    (node : ControlParser) (claim : Claim) (condition branch : ControlParser) : Prop where
  reserved : parser.reserveNode = .ok ⟨cursors.slots.node, node⟩
  claimed : node.claimBranches cursors.slots.node = .ok claim
  claims : parser.mode = .fill → claim.expected = branches ∧ claim.refOffset = cursors.branchRef
  unit : claim.parser.reserveUnit .condition (tokenAt tokens (parser.pos + 1)).start (tokenAt tokens (start - 1)).stop =
    .ok ⟨cursors.slots.unit, condition⟩
  taken : ControlParser.reserveBranch { condition with pos := start } = .ok ⟨cursors.slots.branch, branch⟩
  filled : branch.fill [.reference claim.refOffset cursors.slots.branch,
      .condition cursors.slots.branch cursors.slots.unit] =
    parser.after start (takesHead tokens branches (parser.pos + 1) start cursors)

theorem headSteps {parser : ControlParser} {cursors : Cursors} {branches start : Nat} (at_ : parser.At cursors)
    (forward : (tokenAt tokens (parser.pos + 1)).start < (tokenAt tokens (start - 1)).stop)
    (room : parser.Room (takesHead tokens branches (parser.pos + 1) start cursors))
    (counted : parser.mode = .fill → ControlWrite.Holds parser.state (.nodeCount cursors.slots.node branches)) :
    ∃ node claim condition branch, HeadSteps tokens parser cursors branches start node claim condition branch := by
  unfold takesHead at room
  dsimp only at room
  rw [takesFirst_parts] at room
  have nodeRoom := room.left.left
  rw [takesNode_parts] at nodeRoom
  have reserved := reserve_ok "node" at_ nodeRoom.left
  have kept (filling : parser.mode = .fill) :
      (parser.after parser.pos { size := .one .node }).state = parser.state := by
    simp [ControlParser.after, filling]
  have nodeAt : (parser.after parser.pos { size := .one .node }).At (cursors.past { size := .one .node }) := at_.after
  obtain ⟨claim, claimed, claimedParser, claims⟩ := @claimBranches_ok _ _ cursors.slots.node branches nodeAt
    (fun filling => (nodeRoom.right parser.pos).branchRefs filling) fun filling => by
      rw [after_mode] at filling
      rw [kept filling]
      exact counted filling
  have isNode : claim.parser = parser.after parser.pos (takesNode branches cursors) := by
    rw [claimedParser, after_after, after_pos, takesNode_parts]
    rfl
  have unitAt : claim.parser.At (cursors.past (takesNode branches cursors)) := isNode ▸ at_.after
  have unitRoom := room.left.right parser.pos
  rw [← isNode] at unitRoom
  have unit := reserveUnit_ok unitAt forward unitRoom
  have branchAt := @ControlParser.At.moved _ _ start (@ControlParser.At.after _ (takesNode branches cursors ++
    takesUnit tokens .condition (parser.pos + 1) start (cursors.past (takesNode branches cursors))) _ parser.pos at_)
  have branchRoom := room.right parser.pos
  have reservedBranch := reserve_ok "branch" branchAt branchRoom.left.moved
  rw [after_after, after_pos] at reservedBranch
  refine ⟨_, claim, _, ?branch, reserved, claimed, ?_, unit, ?taken, ?_⟩
  case taken =>
    rw [ControlParser.moved_eq, isNode, after_pos, after_after, after_after]
    exact reservedBranch
  · intro filling
    exact claims (by rw [after_mode]; exact filling)
  · rw [fill_eq fun filling => by
      simp only [after_mode] at filling
      rw [(claims (by rw [after_mode]; exact filling)).2]]
    simp only [after_pos, after_after, Progress.append_assoc, Progress.empty_append]
    unfold takesHead
    dsimp only
    rw [takesFirst_parts]
    simp only [Progress.append_assoc]
    rfl

include ordered in
theorem parseIf_follows (levels : Nat) : FollowsTree tokens (parseIf sql tokens levels) (readIf sql tokens levels) := by
  -- the levels that are left bound the recursion
  induction levels with
  | zero =>
    intro parser cursors found at_ read room
    cases read
  | succ levels inductionHypothesis =>
    have items := @parseItem_follows sql tokens size ordered _ _ inductionHypothesis readIf_kind
    intro parser cursors found at_ read room
    rw [readIf] at read
    dsimp only at read
    rw [parseIf]
    dsimp only
    split_ifs at read with noCondition
    obtain ⟨start, search, rest⟩ := bind_ok read
    cases start with
    | none => cases rest
    | some start =>
      dsimp only at rest
      obtain ⟨first, readFirst, rest⟩ := bind_ok rest
      have bounds := branchStart_bounds search
      have forward := ordered.forward (show parser.pos + 1 < start by omega) (by omega)
      split_ifs at rest with isElse missing
      · obtain ⟨second, readSecond, rest⟩ := bind_ok rest
        cases rest
        dsimp only at room ⊢
        rw [ControlTree.progress_ifElse] at room ⊢
        dsimp only at room ⊢
        have counted (filling : parser.mode = .fill) :=
          (room.counted filling _ (List.mem_append_right _ List.mem_cons_self)).2
        have otherRoom := room.left.left.right first.pos
        rw [takesSecond_parts] at otherRoom
        obtain ⟨node, claim, condition, branch, steps⟩ := headSteps at_ forward room.left.left.left.left counted
        have body := parseBranchBody_follows items _ at_.after (by rw [after_pos]; exact readFirst)
          (room.left.left.left.right start)
        rw [steps.reserved, ok_bind, steps.claimed, ok_bind, if_neg noCondition, search, ok_bind]
        dsimp only
        rw [steps.unit, ok_bind, steps.taken, ok_bind, steps.filled, body, ok_bind, after_pos, if_pos isElse,
          if_neg missing, after_after]
        -- the branch behind ELSE goes on from where the first one ends
        have bodyAt := @ControlParser.At.after _ (takesHead tokens 2 (parser.pos + 1) start cursors ++
          first.trees.bodyProgress tokens cursors.slots.branch
            (cursors.past (takesHead tokens 2 (parser.pos + 1) start cursors))) _ first.pos at_
        have reserved := reserve_ok "branch" (@ControlParser.At.moved _ _ (behindSemicolons tokens
          (tokenAt tokens parser.pos).blockDepth (tokens.length - first.pos) first.pos + 1) bodyAt) otherRoom.left.moved
        have other := parseBranchBody_follows items (tokenAt tokens parser.pos).blockDepth at_.after
          (by rw [after_pos]; exact readSecond) (room.left.right (behindSemicolons tokens
            (tokenAt tokens parser.pos).blockDepth (tokens.length - first.pos) first.pos + 1))
        rw [ControlParser.moved_eq]
        unfold ControlParser.reserveBranch
        rw [reserved, ok_bind]
        dsimp only
        rw [@fill_eq _ _ [.reference (cursors.branchRef + 1) _, .otherwise _] fun filling => by
          simp only [after_mode] at filling
          rw [(steps.claims filling).2]]
        simp only [after_pos, after_after, Progress.append_assoc, Progress.empty_append, Tally.get] at other ⊢
        rw [← takesSecond_parts, other, ok_bind, finishNode_ok]
        · simp only [after_pos, after_after, Progress.append_assoc]
          rfl
        · intro filling
          rw [after_mode] at filling
          exact (steps.claims filling).1
      · cases rest
        dsimp only at room ⊢
        rw [ControlTree.progress_ifThen] at room ⊢
        dsimp only at room ⊢
        have counted (filling : parser.mode = .fill) :=
          (room.counted filling _ (List.mem_append_right _ List.mem_cons_self)).2
        obtain ⟨node, claim, condition, branch, steps⟩ := headSteps at_ forward room.left.left counted
        have body := parseBranchBody_follows items _ at_.after (by rw [after_pos]; exact readFirst)
          (room.left.right start)
        rw [steps.reserved, ok_bind, steps.claimed, ok_bind, if_neg noCondition, search, ok_bind]
        dsimp only
        rw [steps.unit, ok_bind, steps.taken, ok_bind, steps.filled, body, ok_bind, after_pos, if_neg isElse,
          finishNode_ok]
        · rw [after_pos, after_after, after_after]
          rfl
        · intro filling
          rw [after_mode, after_mode] at filling
          exact (steps.claims filling).1

end follows

end SqlParser.Sqlserver
