import SqlParser.Sqlserver.ControlPassesAgree

/-! # The shape of what is read

A tree that is read is no deeper than the levels allow, none of its branches is empty, and its
statements and conditions cover the tokens: what is between them are the words and semicolons of
the control flow.
-/

namespace SqlParser.Sqlserver

open SqlParser.Core

/-! ## Units of a tree -/

/-- A statement or a condition by its tokens. -/
structure UnitSpan where
  kind : ControlUnitKind
  start : Nat
  stop : Nat
  deriving DecidableEq, Repr

mutual

/-- The statements and conditions of a tree in the order of the text. -/
def ControlTree.units : ControlTree → List UnitSpan
  | .statement start stop => [⟨.statement, start, stop⟩]
  | .ifThen start stop first => ⟨.condition, start, stop⟩ :: first.units
  | .ifElse start stop first second => ⟨.condition, start, stop⟩ :: (first.units ++ second.units)

def ControlTrees.units : ControlTrees → List UnitSpan
  | .nil => []
  | .cons head rest => head.units ++ rest.units

end

mutual

/-- No branch is empty, and at most so many nodes stand on a path. -/
def ControlTree.Proper (levels : Nat) : ControlTree → Prop
  | .statement _ _ => True
  | .ifThen _ _ first => 0 < levels ∧ first.isEmpty = false ∧ first.Proper (levels - 1)
  | .ifElse _ _ first second =>
    0 < levels ∧ (first.isEmpty = false ∧ first.Proper (levels - 1)) ∧ second.isEmpty = false ∧ second.Proper (levels - 1)

def ControlTrees.Proper (levels : Nat) : ControlTrees → Prop
  | .nil => True
  | .cons head rest => head.Proper levels ∧ rest.Proper levels

end

mutual

theorem ControlTree.units_kind (tree : ControlTree) (unit : UnitSpan) (listed : unit ∈ tree.units) :
    unit.kind = .statement ∨ unit.kind = .condition := by
  cases tree with
  | statement start stop =>
    rw [ControlTree.units, List.mem_singleton] at listed
    exact .inl (congrArg UnitSpan.kind listed)
  | ifThen start stop first =>
    rw [ControlTree.units, List.mem_cons] at listed
    obtain rfl | inside := listed
    · exact .inr rfl
    · exact first.units_kind unit inside
  | ifElse start stop first second =>
    rw [ControlTree.units, List.mem_cons, List.mem_append] at listed
    obtain rfl | inside | inside := listed
    · exact .inr rfl
    · exact first.units_kind unit inside
    · exact second.units_kind unit inside
termination_by sizeOf tree

theorem ControlTrees.units_kind (trees : ControlTrees) (unit : UnitSpan) (listed : unit ∈ trees.units) :
    unit.kind = .statement ∨ unit.kind = .condition := by
  cases trees with
  | nil =>
    rw [ControlTrees.units] at listed
    cases listed
  | cons head rest =>
    rw [ControlTrees.units, List.mem_append] at listed
    obtain here | later := listed
    · exact head.units_kind unit here
    · exact rest.units_kind unit later
termination_by sizeOf trees

end

mutual

theorem ControlTree.units_length (tree : ControlTree) : tree.units.length = tree.size.unit := by
  cases tree with
  | statement start stop =>
    rw [ControlTree.units, ControlTree.size]
    rfl
  | ifThen start stop first =>
    rw [ControlTree.units, ControlTree.size, List.length_cons, first.units_length]
    exact Nat.add_comm _ _
  | ifElse start stop first second =>
    rw [ControlTree.units, ControlTree.size, List.length_cons, List.length_append, first.units_length, second.units_length]
    simp
    omega
termination_by sizeOf tree

theorem ControlTrees.units_length (trees : ControlTrees) : trees.units.length = trees.size.unit := by
  cases trees with
  | nil =>
    rw [ControlTrees.units, ControlTrees.size]
    rfl
  | cons head rest =>
    rw [ControlTrees.units, ControlTrees.size, List.length_append, head.units_length, rest.units_length]
    simp
termination_by sizeOf trees

end

theorem ControlTrees.count_pos {trees : ControlTrees} (some : trees.isEmpty = false) : 0 < trees.count := by
  cases trees with
  | nil => cases some
  | cons head rest => exact Nat.succ_pos _

theorem ControlTrees.count_zero {trees : ControlTrees} (none : trees.isEmpty) : trees.count = 0 := by
  cases trees with
  | nil => rfl
  | cons head rest => cases none

/-- No array is longer than that of the units; so many items, or not, are still to be added. -/
structure Tally.Bounded (size : Tally) (items others : Nat) : Prop where
  node : size.node ≤ size.unit
  branch : size.branch + items ≤ size.unit
  item : size.item + others ≤ size.unit

mutual

theorem ControlTree.size_bounded {levels : Nat} (tree : ControlTree) (proper : tree.Proper levels) :
    tree.size.Bounded 1 1 := by
  cases tree with
  | statement start stop =>
    rw [ControlTree.size]
    exact ⟨Nat.zero_le 1, Nat.le_refl 1, Nat.le_refl 1⟩
  | ifThen start stop first =>
    rw [ControlTree.Proper] at proper
    obtain ⟨node, branch, item⟩ := first.size_bounded proper.2.2
    have some := ControlTrees.count_pos proper.2.1
    rw [ControlTree.size]
    constructor <;> simp <;> omega
  | ifElse start stop first second =>
    rw [ControlTree.Proper] at proper
    obtain ⟨node, branch, item⟩ := first.size_bounded proper.2.1.2
    obtain ⟨otherNode, otherBranch, otherItem⟩ := second.size_bounded proper.2.2.2
    have some := ControlTrees.count_pos proper.2.1.1
    have others := ControlTrees.count_pos proper.2.2.1
    rw [ControlTree.size]
    constructor <;> simp <;> omega
termination_by sizeOf tree

theorem ControlTrees.size_bounded {levels : Nat} (trees : ControlTrees) (proper : trees.Proper levels) :
    trees.size.Bounded trees.count 0 := by
  cases trees with
  | nil =>
    rw [ControlTrees.size]
    exact ⟨Nat.le_refl 0, Nat.le_refl 0, Nat.le_refl 0⟩
  | cons head rest =>
    rw [ControlTrees.Proper] at proper
    obtain ⟨node, branch, item⟩ := head.size_bounded proper.1
    obtain ⟨otherNode, otherBranch, otherItem⟩ := rest.size_bounded proper.2
    rw [ControlTrees.size, ControlTrees.count]
    constructor <;> simp <;> omega
termination_by sizeOf trees

end

/-! ## Covers -/

section covers

variable (sql : Text) (tokens : List Token)

/-- A semicolon, or a word of the control flow. -/
def isMark (index : Nat) : Bool :=
  tokenSymbol tokens index Byte.semicolon || ["if", "else", "begin", "end"].any (tokenWord sql tokens index)

/-- The tokens from one to behind another are those of some units, in their order, and marks. -/
inductive Covers : Nat → List UnitSpan → Nat → Prop where
  | done (pos : Nat) : Covers pos [] pos
  | mark {pos stop : Nat} {units : List UnitSpan} (separates : isMark sql tokens pos) (later : Covers (pos + 1) units stop) :
      Covers pos units stop
  | unit {kind : ControlUnitKind} {start next stop : Nat} {units : List UnitSpan} (forward : start < next)
      (inside : next ≤ tokens.length) (later : Covers next units stop) : Covers start (⟨kind, start, next⟩ :: units) stop

variable {sql tokens} {pos middle stop : Nat} {units others : List UnitSpan}

theorem Covers.append (front : Covers sql tokens pos units middle) (back : Covers sql tokens middle others stop) :
    Covers sql tokens pos (units ++ others) stop := by
  induction front with
  | done => exact back
  | mark separates _ inductionHypothesis => exact .mark separates (inductionHypothesis back)
  | unit forward inside _ inductionHypothesis => exact .unit forward inside (inductionHypothesis back)

/-- Every unit takes a token at least. -/
theorem Covers.length_le (covers : Covers sql tokens pos units stop) : pos + units.length ≤ stop := by
  induction covers with
  | done => exact Nat.le_refl _
  | mark _ _ inductionHypothesis => omega
  | unit forward _ _ inductionHypothesis =>
    rw [List.length_cons]
    omega

theorem Covers.of_marks (before : pos ≤ stop)
    (separates : ∀ passed, pos ≤ passed → passed < stop → isMark sql tokens passed) : Covers sql tokens pos [] stop := by
  induction before using Nat.decreasingInduction with
  | self => exact .done stop
  | of_succ passed before inductionHypothesis =>
    refine .mark (separates passed (Nat.le_refl _) before) (inductionHypothesis fun later atLeast inside => ?_)
    exact separates later (by omega) inside

theorem Covers.inside (covers : Covers sql tokens pos units stop) (unit : UnitSpan) (listed : unit ∈ units) :
    pos ≤ unit.start ∧ unit.start < unit.stop ∧ unit.stop ≤ stop ∧ unit.stop ≤ tokens.length := by
  induction covers with
  | done => cases listed
  | mark _ _ inductionHypothesis =>
    have := inductionHypothesis listed
    omega
  | unit forward inside later inductionHypothesis =>
    have := later.length_le
    cases listed with
    | head =>
      dsimp only
      omega
    | tail _ listed =>
      have := inductionHypothesis listed
      omega

theorem Covers.sorted (covers : Covers sql tokens pos units stop) :
    units.Pairwise fun left right => left.stop ≤ right.start := by
  induction covers with
  | done => exact .nil
  | mark _ _ inductionHypothesis => exact inductionHypothesis
  | unit forward inside later inductionHypothesis =>
    exact .cons (fun unit listed => (later.inside unit listed).1) inductionHypothesis

/-- No token is left out. -/
theorem Covers.complete (covers : Covers sql tokens pos units stop) {index : Nat} (atLeast : pos ≤ index)
    (before : index < stop) :
    isMark sql tokens index ∨ ∃ unit ∈ units, unit.start ≤ index ∧ index < unit.stop := by
  induction covers with
  | done => omega
  | mark separates _ inductionHypothesis =>
    obtain rfl | later := Nat.eq_or_lt_of_le atLeast
    · exact .inl separates
    · exact inductionHypothesis later before
  | @unit kind start next stop units forward inside later inductionHypothesis =>
    by_cases within : index < next
    · exact .inr ⟨_, List.mem_cons_self, atLeast, within⟩
    · obtain separates | ⟨unit, listed, spans⟩ := inductionHypothesis (Nat.le_of_not_lt within) before
      · exact .inl separates
      · exact .inr ⟨unit, List.mem_cons_of_mem _ listed, spans⟩

theorem covers_semicolons (blockDepth remaining index : Nat) :
    Covers sql tokens index [] (behindSemicolons tokens blockDepth remaining index) := by
  obtain ⟨first, -, symbols⟩ := @behindSemicolons_bounds tokens blockDepth remaining index
  refine .of_marks first fun passed atLeast before => ?_
  rw [isMark, symbols passed atLeast before, Bool.true_or]

theorem isMark_word {index : Nat} {word : String} (listed : word ∈ ["if", "else", "begin", "end"])
    (found : tokenWord sql tokens index word) : isMark sql tokens index := by
  rw [isMark, Bool.or_eq_true]
  exact .inr (List.any_eq_true.mpr ⟨word, listed, found⟩)

theorem tokenWord_inside {index : Nat} {word : String} (found : tokenWord sql tokens index word) :
    index < tokens.length := by
  unfold tokenWord at found
  split at found
  next token known => exact (List.getElem?_eq_some_iff.mp known).1
  next => cases found

end covers

/-! ## What is read -/

section shapes

variable (sql : Text) (tokens : List Token)

/-- What holds of a tree that is read at an index. -/
structure Read.Sound (levels pos : Nat) (found : Read) : Prop where
  proper : found.tree.Proper levels
  covers : Covers sql tokens pos found.tree.units found.pos
  inside : found.pos ≤ tokens.length

structure ReadAll.Sound (levels pos : Nat) (found : ReadAll) : Prop where
  proper : found.trees.Proper levels
  covers : Covers sql tokens pos found.trees.units found.pos
  inside : found.pos ≤ tokens.length

variable {sql tokens} {levels : Nat}

theorem readLeaf_sound {blockDepth pos : Nat} {found : Read} (before : pos ≤ tokens.length)
    (read : readLeaf sql tokens blockDepth pos = .ok found) : found.Sound sql tokens levels pos := by
  obtain ⟨stop, search, rest⟩ := bind_ok read
  split_ifs at rest with empty
  cases rest
  obtain ⟨first, last⟩ := leafEnd_bounds search
  have inside : stop ≤ tokens.length := by omega
  constructor
  · trivial
  · rw [ControlTree.units]
    exact .unit (by omega) inside (.done stop)
  · exact inside

theorem readItem_sound {readIf : Nat → Except Failure Read}
    (sound : ∀ {pos found}, readIf pos = .ok found → tokenWord sql tokens pos "if" → found.Sound sql tokens levels pos)
    {blockDepth pos : Nat} {found : Read} (before : pos ≤ tokens.length)
    (read : readItem sql tokens readIf blockDepth pos = .ok found) : found.Sound sql tokens levels pos := by
  unfold readItem at read
  split_ifs at read with isIf
  · rw [Bool.and_eq_true] at isIf
    exact sound read isIf.2
  · exact readLeaf_sound before read

theorem readSequence_sound {readItem : Nat → Except Failure Read}
    (sound : ∀ {pos found}, pos ≤ tokens.length → readItem pos = .ok found → found.Sound sql tokens levels pos)
    {blockDepth turns pos : Nat} {stopAtEnd : Bool} {found : ReadAll} (before : pos ≤ tokens.length)
    (read : readSequence sql tokens readItem blockDepth stopAtEnd turns pos = .ok found) :
    found.Sound sql tokens levels pos := by
  induction turns generalizing pos found with
  | zero =>
    have semicolons := @covers_semicolons sql tokens blockDepth (tokens.length - pos) pos
    have last := (@behindSemicolons_bounds tokens blockDepth (tokens.length - pos) pos).2.1
    rw [readSequence] at read
    split_ifs at read
    cases read
    exact ⟨trivial, semicolons, by dsimp only; omega⟩
  | succ turns inductionHypothesis =>
    have semicolons := @covers_semicolons sql tokens blockDepth (tokens.length - pos) pos
    have last := (@behindSemicolons_bounds tokens blockDepth (tokens.length - pos) pos).2.1
    rw [readSequence] at read
    split_ifs at read
    · cases read
      exact ⟨trivial, semicolons, by dsimp only; omega⟩
    · obtain ⟨head, readHead, rest⟩ := bind_ok read
      obtain ⟨others, readOthers, rest⟩ := bind_ok rest
      cases rest
      have first := sound (by omega) readHead
      have later := inductionHypothesis first.inside readOthers
      refine ⟨⟨first.proper, later.proper⟩, ?_, later.inside⟩
      rw [ControlTrees.units]
      exact semicolons.append (first.covers.append later.covers)

/-- The body of a branch holds at least one statement. -/
theorem readBranchBody_sound {readItem : Nat → Nat → Except Failure Read}
    (sound : ∀ {blockDepth pos found}, pos ≤ tokens.length → readItem blockDepth pos = .ok found →
      found.Sound sql tokens levels pos)
    {blockDepth pos : Nat} {found : ReadAll} (read : readBranchBody sql tokens readItem blockDepth pos = .ok found) :
    found.Sound sql tokens levels pos ∧ found.trees.isEmpty = false := by
  unfold readBranchBody at read
  split_ifs at read with atEnd block
  · dsimp only at read
    obtain ⟨items, readItems, rest⟩ := bind_ok read
    split_ifs at rest with unterminated empty
    cases rest
    simp only [Bool.and_eq_true, blockBegin] at block
    simp only [Bool.or_eq_true, Bool.not_eq_true', not_or, blockEnd, decide_eq_true_eq, ge_iff_le, Nat.not_le,
      Bool.not_eq_false, Bool.and_eq_true] at unterminated
    have inner := readSequence_sound sound (by omega) readItems
    refine ⟨⟨inner.proper, .mark (isMark_word (by simp) block.2.1.1) ?_, unterminated.1⟩, by simpa using empty⟩
    have closed := inner.covers.append (.mark (isMark_word (by simp) unterminated.2.1.1.1) (.done _))
    rw [List.append_nil] at closed
    exact closed
  · obtain ⟨item, readItem, rest⟩ := bind_ok read
    cases rest
    have inner := sound (by omega) readItem
    refine ⟨⟨⟨inner.proper, trivial⟩, ?_, inner.inside⟩, rfl⟩
    rw [ControlTrees.units, ControlTrees.units, List.append_nil]
    exact inner.covers

theorem readIf_sound (levels : Nat) {pos : Nat} {found : Read} (read : readIf sql tokens levels pos = .ok found)
    (isIf : tokenWord sql tokens pos "if") : found.Sound sql tokens levels pos := by
  -- the levels that are left bound the recursion
  induction levels generalizing pos found with
  | zero => cases read
  | succ levels inductionHypothesis =>
    rw [readIf] at read
    dsimp only at read
    split_ifs at read with noCondition
    obtain ⟨start, search, rest⟩ := bind_ok read
    cases start with
    | none => cases rest
    | some start =>
      dsimp only at rest
      obtain ⟨first, readFirst, rest⟩ := bind_ok rest
      have bounds := branchStart_bounds search
      have items {blockDepth pos : Nat} {found : Read} :=
        @readItem_sound sql tokens levels _ inductionHypothesis blockDepth pos found
      obtain ⟨firstSound, firstFull⟩ := readBranchBody_sound items readFirst
      have condition {units : List UnitSpan} {stop : Nat} (later : Covers sql tokens start units stop) :
          Covers sql tokens pos (⟨.condition, pos + 1, start⟩ :: units) stop :=
        .mark (isMark_word (by simp) isIf) (.unit (by omega) (by omega) later)
      split_ifs at rest with isElse missing
      · obtain ⟨second, readSecond, rest⟩ := bind_ok rest
        cases rest
        obtain ⟨secondSound, secondFull⟩ := readBranchBody_sound items readSecond
        rw [Bool.and_eq_true] at isElse
        refine ⟨⟨Nat.succ_pos _, ⟨firstFull, firstSound.proper⟩, secondFull, secondSound.proper⟩, ?_, secondSound.inside⟩
        rw [ControlTree.units]
        refine condition (firstSound.covers.append ?_)
        exact (covers_semicolons _ _ _).append (.mark (isMark_word (by simp) isElse.2) secondSound.covers)
      · cases rest
        refine ⟨⟨Nat.succ_pos _, firstFull, firstSound.proper⟩, ?_, firstSound.inside⟩
        rw [ControlTree.units]
        exact condition firstSound.covers

/-- A sequence that does not stop at an END goes on to the end of the text. -/
theorem readSequence_end {readItem : Nat → Except Failure Read} {blockDepth turns pos : Nat} {found : ReadAll}
    (read : readSequence sql tokens readItem blockDepth false turns pos = .ok found) : tokens.length ≤ found.pos := by
  induction turns generalizing pos found with
  | zero =>
    rw [readSequence] at read
    split_ifs at read with stops
    cases read
    simpa using stops
  | succ turns inductionHypothesis =>
    rw [readSequence] at read
    split_ifs at read with stops
    · cases read
      simpa using stops
    · obtain ⟨head, readHead, rest⟩ := bind_ok read
      obtain ⟨others, readOthers, rest⟩ := bind_ok rest
      cases rest
      have last := inductionHypothesis readOthers
      exact last

theorem readRoots_sound {found : ReadAll} (read : readRoots sql tokens = .ok found) :
    found.Sound sql tokens controlMaxDepth 0 ∧ found.pos = tokens.length := by
  have items {pos : Nat} {found : Read} :=
    @readItem_sound sql tokens controlMaxDepth _ (readIf_sound controlMaxDepth) 0 pos found
  have sound := readSequence_sound items (Nat.zero_le _) read
  exact ⟨sound, Nat.le_antisymm sound.inside (readSequence_end read)⟩

end shapes

end SqlParser.Sqlserver
