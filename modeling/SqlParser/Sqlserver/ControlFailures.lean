import SqlParser.Sqlserver.ControlParseForest

/-! # Failures of the control-flow parser

The pass that counts fails exactly where the text cannot be read, with the failure of the reading,
and that one is always about the text: no internal error of the passes is ever reported.
-/

namespace SqlParser.Sqlserver

open SqlParser.Core

/-! ## The pass that counts fails where the reading does -/

/-- A parser that counts has taken no more entries than tokens, or a few more. -/
structure ControlParser.Light (parser : ControlParser) (spare : Nat) : Prop where
  counting : parser.mode = .count
  few : ∀ slot, parser.next.get slot ≤ parser.pos + spare

section mirrors

variable {sql : Text} {tokens : List Token} {parser : ControlParser} {progress : Progress} {levels spare pos : Nat}

theorem ControlParser.Light.other (light : parser.Light spare) {Fact : Prop} (filling : parser.mode = .fill) : Fact := by
  rw [light.counting] at filling
  cases filling

theorem ControlParser.Light.place (light : parser.Light spare) : parser.At ⟨parser.next, 0, 0⟩ :=
  ⟨rfl, light.other, light.other⟩

theorem ControlParser.Light.room (light : parser.Light spare)
    (fits : ∀ slot, (parser.next + progress.size).get slot ≤ sizeMax) : parser.Room progress := by
  refine ⟨fun slot => ?_, light.other, light.other, light.other, light.other⟩
  have limit : parser.limit slot = sizeMax := by
    rw [ControlParser.limit, ControlParser.counting, light.counting]
    rfl
  rw [limit]
  exact fits slot

theorem ControlParser.Light.after {later : Nat} (light : parser.Light spare)
    (few : ∀ slot, (parser.next + progress.size).get slot ≤ pos + later) : (parser.after pos progress).Light later := by
  constructor
  · rw [after_mode]
    exact light.counting
  · rw [after_next, after_pos]
    exact few

/-- A step of the parser that counts fails as the reading does. -/
def Mirrors (tokens : List Token) (parse : ControlParser → Except Failure Reached) (read : Nat → Except Failure Read)
    (spare : Nat) : Prop :=
  ∀ {parser failure}, parser.Light spare → parser.pos ≤ tokens.length → read parser.pos = .error failure →
    parse parser = .error failure

theorem bind_error {Value Result : Type} {first : Except Failure Value} {next : Value → Except Failure Result}
    {failure : Failure} (failed : (first >>= next) = .error failure) :
    first = .error failure ∨ ∃ value, first = .ok value ∧ next value = .error failure := by
  cases first with
  | error other =>
    cases failed
    exact .inl rfl
  | ok value => exact .inr ⟨value, rfl, failed⟩

theorem map_error {Value Result : Type} {first : Except Failure Value} {change : Value → Result} {failure : Failure}
    (failed : first.map change = .error failure) : first = .error failure := by
  cases first with
  | error other =>
    cases failed
    rfl
  | ok value => cases failed

theorem error_bind {Value Result : Type} {failure : Failure} {next : Value → Except Failure Result} :
    ((.error failure : Except Failure Value) >>= next) = .error failure := rfl

/-- What is read takes no more entries than tokens. -/
theorem Read.Sound.few {found : Read} (sound : found.Sound sql tokens levels pos) (slot : ControlSlot) :
    found.tree.size.get slot + (Tally.one .item).get slot + pos ≤ found.pos := by
  obtain ⟨node, branch, item⟩ := found.tree.size_bounded sound.proper
  have units := sound.covers.length_le
  rw [found.tree.units_length] at units
  cases slot <;> simp [Tally.get, Tally.one, Tally.bump] <;> omega

theorem ReadAll.Sound.few {found : ReadAll} (sound : found.Sound sql tokens levels pos) (slot : ControlSlot) :
    found.trees.size.get slot + pos ≤ found.pos := by
  obtain ⟨node, branch, item⟩ := found.trees.size_bounded sound.proper
  have units := sound.covers.length_le
  rw [found.trees.units_length] at units
  cases slot <;> simp only [Tally.get] <;> omega

theorem parseLeaf_mirrors (blockDepth : Nat) :
    Mirrors tokens (parseLeaf sql tokens blockDepth) (readLeaf sql tokens blockDepth) spare := by
  intro parser failure light inside failed
  unfold parseLeaf
  obtain ended | ⟨stop, found, rest⟩ := bind_error failed
  · rw [ended, error_bind]
  · rw [found, ok_bind]
    split_ifs at rest with empty
    cases rest
    exact if_pos empty

theorem parseItem_mirrors {parseIf : ControlParser → Except Failure Reached} {readIf : Nat → Except Failure Read}
    (mirrors : Mirrors tokens parseIf readIf 1) (large : tokens.length + 2 ≤ sizeMax) (blockDepth : Nat) :
    Mirrors tokens (parseItem sql tokens parseIf blockDepth) (readItem sql tokens readIf blockDepth) 0 := by
  intro parser failure light inside failed
  have one (slot : ControlSlot) : (parser.next + Tally.one .item).get slot ≤ parser.pos + 1 := by
    have := light.few slot
    rw [Tally.get_add]
    cases slot <;> simp [Tally.one, Tally.bump, Tally.get] at this ⊢ <;> omega
  have reserved := @reserve_ok parser ⟨parser.next, 0, 0⟩ .item "item" light.place
    (light.room fun slot => (one slot).trans (by omega))
  have behind : (parser.after parser.pos { size := .one .item }).Light 1 := light.after one
  unfold readItem at failed
  unfold parseItem ControlParser.reserveItem
  rw [reserved, ok_bind]
  dsimp only
  split_ifs at failed ⊢ with isIf
  · rw [mirrors behind (by rw [after_pos]; exact inside) (by rw [after_pos]; exact failed), error_bind]
  · rw [parseLeaf_mirrors blockDepth behind (by rw [after_pos]; exact inside) (by rw [after_pos]; exact failed), error_bind]

theorem parseSequence_mirrors {parseItem : ControlParser → Except Failure Reached} {readItem : Nat → Except Failure Read}
    (mirrors : Mirrors tokens parseItem readItem 0) (follows : FollowsItem tokens parseItem readItem)
    (sound : ∀ {pos found}, pos ≤ tokens.length → readItem pos = .ok found → found.Sound sql tokens levels pos)
    (large : tokens.length + 2 ≤ sizeMax) (blockDepth : Nat) (stopAtEnd : Bool) {refOffset turns count : Nat}
    {failure : Failure} (light : parser.Light 0) (inside : parser.pos ≤ tokens.length)
    (failed : readSequence sql tokens readItem blockDepth stopAtEnd turns parser.pos = .error failure) :
    parseSequence sql tokens parseItem blockDepth stopAtEnd refOffset turns count parser = .error failure := by
  induction turns generalizing count parser with
  | zero =>
    rw [readSequence] at failed
    rw [parseSequence]
    split_ifs at failed ⊢ <;> (cases failed; rfl)
  | succ turns inductionHypothesis =>
    obtain ⟨first, last, -⟩ := @behindSemicolons_bounds tokens blockDepth (tokens.length - parser.pos) parser.pos
    rw [readSequence] at failed
    rw [parseSequence]
    split_ifs at failed ⊢
    · cases failed
      rfl
    · cases failed
      rfl
    · rw [ControlParser.moved_eq]
      generalize behindSemicolons tokens blockDepth (tokens.length - parser.pos) parser.pos = start at *
      have here : (parser.after start {}).Light 0 := light.after fun slot => (light.few slot).trans (by omega)
      have startInside : start ≤ tokens.length := by omega
      obtain atItem | ⟨head, readHead, rest⟩ := bind_error failed
      · rw [mirrors here (by rw [after_pos]; exact startInside) (by rw [after_pos]; exact atItem), error_bind]
      · have headSound := sound startInside readHead
        have headInside := headSound.inside
        have taken (slot : ControlSlot) : ((parser.after start {}).next + (head.tree.itemProgress tokens
            ⟨(parser.after start {}).next, 0, 0⟩).size).get slot ≤ head.pos + 0 := by
          have few := here.few slot
          have more := headSound.few slot
          have spans := head.tree.progress_spans tokens
            (Cursors.past ⟨(parser.after start {}).next, 0, 0⟩ { size := .one .item })
          rw [after_pos] at few
          unfold ControlTree.itemProgress
          dsimp only
          rw [Progress.append_size, Progress.append_size, spans.size, Tally.get_add, Tally.get_add, Tally.get_add]
          dsimp only
          have none : (({} : Tally).get slot) = 0 := by cases slot <;> rfl
          omega
        have parsed := follows here.place (by rw [after_pos]; exact readHead)
          (here.room fun slot => (taken slot).trans (by omega))
        rw [parsed, ok_bind]
        have behind := here.after taken
        rw [@refer_ok _ refOffset count 0 _ behind.other, ok_bind]
        dsimp only
        rw [after_pos]
        have later : (((parser.after start {}).after head.pos (head.tree.itemProgress tokens
            ⟨(parser.after start {}).next, 0, 0⟩)).after head.pos
              { filled := [.reference 0 (parser.after start {}).next.item] }).Light 0 :=
          behind.after fun slot => by
            have few := behind.few slot
            rw [after_pos] at few
            exact few
        obtain atRest | ⟨others, -, nothing⟩ := bind_error rest
        · exact inductionHypothesis later (by rw [after_pos]; exact headInside) (by rw [after_pos]; exact atRest)
        · cases nothing

/-- What a branch that is read leaves to the pass that counts. -/
theorem bodyProgress_few {found : ReadAll} (sound : found.Sound sql tokens levels parser.pos) (light : parser.Light 0)
    (branch : Nat) (cursors : Cursors) (slot : ControlSlot) :
    (parser.next + (found.trees.bodyProgress tokens branch cursors).size).get slot ≤ found.pos + 0 := by
  have few := light.few slot
  have more := sound.few slot
  have spans := ControlTrees.bodyProgress_spans tokens (found.trees.progress_spans tokens) branch cursors
  rw [spans.size, Tally.get_add]
  omega

theorem parseBranchBody_mirrors {parseItem : Nat → ControlParser → Except Failure Reached}
    {readItem : Nat → Nat → Except Failure Read} (mirrors : ∀ blockDepth, Mirrors tokens (parseItem blockDepth) (readItem blockDepth) 0)
    (follows : ∀ blockDepth, FollowsItem tokens (parseItem blockDepth) (readItem blockDepth))
    (sound : ∀ {blockDepth pos found}, pos ≤ tokens.length → readItem blockDepth pos = .ok found →
      found.Sound sql tokens levels pos)
    (large : tokens.length + 2 ≤ sizeMax) (blockDepth : Nat) {branch : Nat} {failure : Failure} (light : parser.Light 0)
    (failed : readBranchBody sql tokens readItem blockDepth parser.pos = .error failure) :
    parseBranchBody sql tokens parseItem branch blockDepth parser = .error failure := by
  have claimed : parser.claimItems branch = .ok ⟨0, 0, parser⟩ := by
    unfold ControlParser.claimItems ControlParser.filling
    rw [light.counting]
    rfl
  unfold readBranchBody at failed
  unfold parseBranchBody
  split_ifs at failed ⊢ with atEnd block
  · cases failed
    rfl
  · rw [claimed, ok_bind]
    dsimp only at failed ⊢
    rw [ControlParser.moved_eq]
    have inside : parser.pos + 1 ≤ tokens.length := by omega
    have here : (parser.after (parser.pos + 1) {}).Light 0 := light.after fun slot => (light.few slot).trans (by omega)
    obtain atItems | ⟨items, readItems, rest⟩ := bind_error failed
    · rw [parseSequence_mirrors (mirrors _) (follows _) sound large _ _ here (by rw [after_pos]; exact inside)
        (by rw [after_pos]; exact atItems), error_bind]
    · have itemsSound := readSequence_sound sound inside readItems
      have itemsInside := itemsSound.inside
      have room : (parser.after (parser.pos + 1) {}).Room
          (items.trees.progress tokens 0 ⟨(parser.after (parser.pos + 1) {}).next, 0, 0⟩) := by
        refine here.room fun slot => ?_
        have few := here.few slot
        have more := itemsSound.few slot
        rw [(items.trees.progress_spans tokens 0 _).size, Tally.get_add]
        rw [after_pos] at few
        omega
      have parsed := @parseSequence_follows sql tokens _ _ (follows (blockDepth + 1)) (blockDepth + 1) true 0 tokens.length 0 0
        _ _ items here.place (by rw [after_pos]; exact readItems) room here.other
      rw [parsed, ok_bind]
      dsimp only
      rw [after_pos]
      split_ifs at rest ⊢ with unterminated empty full full
      · cases rest
        rfl
      · cases rest
        rfl
      · exact absurd ((Nat.zero_add _).trans (ControlTrees.count_zero full)) empty
  · rw [claimed, ok_bind]
    dsimp only at failed ⊢
    have inside : parser.pos ≤ tokens.length := by omega
    obtain atItem | ⟨item, -, nothing⟩ := bind_error failed
    · rw [mirrors _ light inside atItem, error_bind]
    · cases nothing

variable {size : Nat} (ordered : TokensOrdered tokens size)

include ordered in
theorem parseIf_mirrors (large : tokens.length + 2 ≤ sizeMax) (levels : Nat) :
    Mirrors tokens (parseIf sql tokens levels) (readIf sql tokens levels) 1 := by
  -- the levels that are left bound the recursion
  induction levels with
  | zero =>
    intro parser failure light inside failed
    cases failed
    rfl
  | succ levels inductionHypothesis =>
    have items := @parseItem_mirrors sql tokens _ _ inductionHypothesis large
    have follows := @parseItem_follows sql tokens size ordered (parseIf sql tokens levels) (readIf sql tokens levels)
      (parseIf_follows ordered levels) readIf_kind
    have sound {blockDepth pos : Nat} {found : Read} :=
      @readItem_sound sql tokens levels (readIf sql tokens levels) (readIf_sound levels) blockDepth pos found
    intro parser failure light inside failed
    have few := light.few
    have reserved : parser.reserveNode = .ok ⟨parser.next.node, parser.after parser.pos { size := .one .node }⟩ := by
      refine @reserve_ok parser ⟨parser.next, 0, 0⟩ .node "node" light.place (light.room fun slot => ?_)
      have := few slot
      rw [Tally.get_add]
      cases slot <;> simp [Tally.one, Tally.bump, Tally.get] at this ⊢ <;> omega
    have claimed : (parser.after parser.pos { size := .one .node }).claimBranches parser.next.node =
        .ok ⟨0, 0, parser.after parser.pos { size := .one .node }⟩ := by
      unfold ControlParser.claimBranches ControlParser.filling
      rw [after_mode, light.counting]
      rfl
    rw [readIf] at failed
    rw [parseIf]
    dsimp only at failed ⊢
    by_cases noCondition : parser.pos + 1 ≥ tokens.length
    · rw [if_pos noCondition] at failed
      cases failed
      rw [reserved, ok_bind]
      dsimp only
      rw [claimed, ok_bind, if_pos noCondition]
    rw [if_neg noCondition] at failed
    obtain atSearch | ⟨start, search, rest⟩ := bind_error failed
    · rw [reserved, ok_bind]
      dsimp only
      rw [claimed, ok_bind, if_neg noCondition, atSearch, error_bind]
    cases start with
    | none =>
      cases rest
      rw [reserved, ok_bind]
      dsimp only
      rw [claimed, ok_bind, if_neg noCondition, search, ok_bind]
    | some start =>
      dsimp only at rest
      have bounds := branchStart_bounds search
      have forward := ordered.forward (show parser.pos + 1 < start by omega) (by omega)
      have headFew (slot : ControlSlot) : (parser.next + (takesHead tokens 1 (parser.pos + 1) start
          ⟨parser.next, 0, 0⟩).size).get slot ≤ start + 0 := by
        have := few slot
        rw [(takesHead_spans tokens 1 (parser.pos + 1) start _).size, Tally.get_add]
        cases slot <;> simp only [Tally.get] at this ⊢ <;> omega
      obtain ⟨node, claim, condition, branch, steps⟩ := headSteps light.place forward
        (light.room fun slot => (headFew slot).trans (by omega)) light.other
      have atFirst := light.after headFew
      rw [steps.reserved, ok_bind, steps.claimed, ok_bind, if_neg noCondition, search, ok_bind]
      dsimp only
      rw [steps.unit, ok_bind, steps.taken, ok_bind, steps.filled]
      generalize isHead : takesHead tokens 1 (parser.pos + 1) start ⟨parser.next, 0, 0⟩ = head at *
      obtain firstFails | ⟨first, readFirst, rest⟩ := bind_error rest
      · rw [parseBranchBody_mirrors items follows sound large _ atFirst (by rw [after_pos]; exact firstFails), error_bind]
      have firstSound := (readBranchBody_sound sound readFirst).1
      have firstInside := firstSound.inside
      rw [← @after_pos parser head start] at firstSound
      have bodyFew := bodyProgress_few firstSound atFirst parser.next.branch ⟨(parser.after start head).next, 0, 0⟩
      have body := @parseBranchBody_follows sql tokens _ _ follows (tokenAt tokens parser.pos).blockDepth parser.next.branch
        _ _ _ atFirst.place (by rw [after_pos]; exact readFirst) (atFirst.room fun slot => (bodyFew slot).trans (by omega))
      have behindFirst := atFirst.after bodyFew
      rw [body, ok_bind]
      generalize first.trees.bodyProgress tokens parser.next.branch ⟨(parser.after start head).next, 0, 0⟩ = progress at *
      rw [after_pos]
      obtain ⟨ahead, behind, -⟩ := @behindSemicolons_bounds tokens (tokenAt tokens parser.pos).blockDepth
        (tokens.length - first.pos) first.pos
      split_ifs at rest ⊢ with isElse missing
      · cases rest
        rfl
      · obtain secondFails | ⟨second, -, nothing⟩ := bind_error rest
        · generalize behindSemicolons tokens (tokenAt tokens parser.pos).blockDepth (tokens.length - first.pos) first.pos =
            lookahead at *
          rw [Bool.and_eq_true] at isElse
          have elseInside := tokenWord_inside isElse.2
          have moved : (((parser.after start head).after first.pos progress).after (lookahead + 1) {}).Light 0 :=
            behindFirst.after fun slot => by
              have := behindFirst.few slot
              rw [after_pos] at this
              exact this.trans (by omega)
          have one (slot : ControlSlot) : ((((parser.after start head).after first.pos progress).after (lookahead + 1)
              {}).next + Tally.one .branch).get slot ≤ lookahead + 1 + 0 := by
            have := behindFirst.few slot
            rw [after_pos] at this
            rw [after_next, Tally.add_zero, Tally.get_add]
            cases slot <;> simp [Tally.one, Tally.bump, Tally.get] at this ⊢ <;> omega
          have reservedOther : ControlParser.reserveBranch
              (((parser.after start head).after first.pos progress).after (lookahead + 1) {}) = .ok ⟨_, _⟩ :=
            reserve_ok _ moved.place (moved.room fun slot => (one slot).trans (by omega))
          rw [ControlParser.moved_eq, reservedOther, ok_bind]
          dsimp only
          rw [@fill_eq _ _ _ fun _ => rfl]
          -- the references of the branch are stored by another pass
          have filled (writes : List ControlWrite) : (((((parser.after start head).after first.pos progress).after
              (lookahead + 1) {}).after (lookahead + 1) { size := .one .branch }).after (lookahead + 1)
                { filled := writes }).Light 0 := by
            have other : ((((parser.after start head).after first.pos progress).after (lookahead + 1) {}).after
                (lookahead + 1) { size := .one .branch }).Light 0 := moved.after one
            refine other.after fun slot => ?_
            have := other.few slot
            rw [after_pos] at this
            exact this
          rw [after_pos, after_pos, parseBranchBody_mirrors items follows sound large _ (filled _)
            (by rw [after_pos]; exact secondFails), error_bind]
        · cases nothing

end mirrors

/-! ## Failures are about the text -/

/-- The failure is one of the text, and not of the program. -/
def Failure.OfText (failure : Failure) : Prop :=
  failure.error.code = .parseError ∨ failure.error.code = .unsupported ∨ failure.error.code = .resourceLimit

/-- Where the reading fails, the text is to blame. -/
def Blames {Value : Type} (result : Except Failure Value) : Prop :=
  ∀ failure, result = .error failure → failure.OfText

section blames

variable {sql : Text} {tokens : List Token} {levels : Nat}

theorem blames_errorAt {Value : Type} (pos : Nat) (message : String) :
    Blames (.error (errorAt sql pos message) : Except Failure Value) := by
  intro failure failed
  cases failed
  exact .inl rfl

theorem blames_ok {Value : Type} (value : Value) : Blames (.ok value) :=
  fun failure failed => by cases failed

theorem Blames.bind {Value Result : Type} {first : Except Failure Value} {next : Value → Except Failure Result}
    (blames : Blames first) (later : ∀ value, first = .ok value → Blames (next value)) : Blames (first >>= next) := by
  intro failure failed
  obtain here | ⟨value, found, rest⟩ := bind_error failed
  · exact blames failure here
  · exact later value found failure rest

theorem leafEnd_blames (start blockDepth remaining effective index : Nat) :
    Blames (leafEnd sql tokens start blockDepth remaining effective index) := by
  induction remaining generalizing effective index with
  | zero => exact blames_ok index
  | succ remaining inductionHypothesis =>
    rw [leafEnd]
    dsimp only
    split_ifs
    all_goals first | exact inductionHypothesis _ _ | exact blames_ok _ | skip
    intro failure failed
    cases failed
    exact .inr (.inl rfl)

theorem branchStart_blames (conditionStart blockDepth remaining index : Nat) :
    Blames (branchStart sql tokens conditionStart blockDepth remaining index) := by
  induction remaining generalizing index with
  | zero => exact blames_ok none
  | succ remaining inductionHypothesis =>
    rw [branchStart]
    split_ifs
    all_goals first | exact inductionHypothesis _ | exact blames_ok _ | exact blames_errorAt _ _

theorem readLeaf_blames (blockDepth pos : Nat) : Blames (readLeaf sql tokens blockDepth pos) := by
  refine (leafEnd_blames _ _ _ _ _).bind fun stop _ => ?_
  split_ifs
  · exact blames_errorAt _ _
  · exact blames_ok _

theorem readItem_blames {readIf : Nat → Except Failure Read} (blames : ∀ pos, Blames (readIf pos)) (blockDepth pos : Nat) :
    Blames (readItem sql tokens readIf blockDepth pos) := by
  unfold readItem
  split_ifs
  · exact blames pos
  · exact readLeaf_blames blockDepth pos

/-- A sequence has a turn left as long as a token is left. -/
theorem readSequence_blames {readItem : Nat → Except Failure Read} (blames : ∀ pos, Blames (readItem pos))
    (sound : ∀ {pos found}, pos ≤ tokens.length → readItem pos = .ok found → found.Sound sql tokens levels pos)
    (blockDepth : Nat) (stopAtEnd : Bool) {turns pos : Nat} (inside : pos ≤ tokens.length)
    (enough : tokens.length ≤ pos + turns) :
    Blames (readSequence sql tokens readItem blockDepth stopAtEnd turns pos) := by
  induction turns generalizing pos with
  | zero =>
    obtain ⟨first, -, -⟩ := @behindSemicolons_bounds tokens blockDepth (tokens.length - pos) pos
    have atEnd : behindSemicolons tokens blockDepth (tokens.length - pos) pos ≥ tokens.length := by omega
    rw [readSequence]
    rw [if_pos (by simp [atEnd])]
    exact blames_ok _
  | succ turns inductionHypothesis =>
    obtain ⟨first, last, -⟩ := @behindSemicolons_bounds tokens blockDepth (tokens.length - pos) pos
    rw [readSequence]
    split_ifs
    · exact blames_ok _
    · exact blames_errorAt _ _
    · exact blames_errorAt _ _
    · refine (blames _).bind fun head readHead => ?_
      have headSound := sound (by omega) readHead
      have forward := headSound.few .item
      have one : (Tally.one .item).get .item = 1 := rfl
      exact (inductionHypothesis headSound.inside (by omega)).bind fun others _ => blames_ok _

theorem readBranchBody_blames {readItem : Nat → Nat → Except Failure Read}
    (blames : ∀ blockDepth pos, Blames (readItem blockDepth pos))
    (sound : ∀ {blockDepth pos found}, pos ≤ tokens.length → readItem blockDepth pos = .ok found →
      found.Sound sql tokens levels pos) (blockDepth pos : Nat) :
    Blames (readBranchBody sql tokens readItem blockDepth pos) := by
  unfold readBranchBody
  split_ifs with atEnd block
  · exact blames_errorAt _ _
  · dsimp only
    refine (readSequence_blames (blames _) sound _ _ (by omega) (by omega)).bind fun items _ => ?_
    split_ifs
    · exact blames_errorAt _ _
    · exact blames_errorAt _ _
    · exact blames_ok _
  · exact (blames blockDepth pos).bind fun item _ => blames_ok _

theorem readIf_blames (levels pos : Nat) : Blames (readIf sql tokens levels pos) := by
  -- the levels that are left bound the recursion
  induction levels generalizing pos with
  | zero =>
    intro failure failed
    cases failed
    exact .inr (.inr rfl)
  | succ levels inductionHypothesis =>
    have bodies (blockDepth pos : Nat) := @readBranchBody_blames sql tokens levels
      (fun blockDepth => readItem sql tokens (readIf sql tokens levels) blockDepth)
      (readItem_blames inductionHypothesis) (readItem_sound (readIf_sound levels)) blockDepth pos
    rw [readIf]
    dsimp only
    split_ifs with noCondition
    · exact blames_errorAt _ _
    refine (branchStart_blames _ _ _ _).bind fun start _ => ?_
    cases start with
    | none => exact blames_errorAt _ _
    | some start =>
      refine (bodies _ _).bind fun first _ => ?_
      split_ifs
      · exact blames_errorAt _ _
      · exact (bodies _ _).bind fun second _ => blames_ok _
      · exact blames_ok _

theorem readRoots_blames : Blames (readRoots sql tokens) := by
  have items {pos : Nat} {found : Read} :=
    @readItem_sound sql tokens controlMaxDepth _ (readIf_sound controlMaxDepth) 0 pos found
  exact readSequence_blames (readItem_blames (readIf_blames controlMaxDepth) 0) items 0 false (Nat.zero_le _)
    (Nat.le_add_left _ _)

/-- A text that cannot be read is not counted, for the same reason. -/
theorem countPass_fails {size : Nat} (ordered : TokensOrdered tokens size) (large : tokens.length + 2 ≤ sizeMax)
    {failure : Failure} (failed : readRoots sql tokens = .error failure) : countPass sql tokens = .error failure := by
  have items := @parseItem_mirrors sql tokens (parseIf sql tokens controlMaxDepth) (readIf sql tokens controlMaxDepth)
    (parseIf_mirrors ordered large controlMaxDepth) large 0
  have follows := @parseItem_follows sql tokens size ordered (parseIf sql tokens controlMaxDepth)
    (readIf sql tokens controlMaxDepth) (parseIf_follows ordered controlMaxDepth) readIf_kind 0
  have sound {pos : Nat} {found : Read} :=
    @readItem_sound sql tokens controlMaxDepth _ (readIf_sound controlMaxDepth) 0 pos found
  have light : (parserReset .count {} emptyState).Light 0 :=
    ⟨rfl, fun slot => by cases slot <;> exact Nat.zero_le _⟩
  have parsed := @parseSequence_mirrors sql tokens _ controlMaxDepth _ _ items follows sound large 0 false 0 tokens.length 0
    failure light (Nat.zero_le _) failed
  unfold countPass parseRoots
  rw [parsed, error_bind]

end blames

end SqlParser.Sqlserver
