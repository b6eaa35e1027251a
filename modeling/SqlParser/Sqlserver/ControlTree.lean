import SqlParser.Library.WriteLog
import SqlParser.Sqlserver.ControlPasses

/-! # Control-flow trees

What the passes of the parser agree on: a tree of statements and IFs over the tokens, read without
any state.  From the tree follows what a pass adds to its parser.
-/

namespace SqlParser.Sqlserver

open SqlParser.Core
open SqlParser.Library.WriteLog

/-! ## Trees -/

mutual

/-- A statement or an IF with its condition, each given by its tokens from the first to behind the last one. -/
inductive ControlTree where
  | statement (start stop : Nat)
  | ifThen (start stop : Nat) (first : ControlTrees)
  | ifElse (start stop : Nat) (first second : ControlTrees)

inductive ControlTrees where
  | nil
  | cons (head : ControlTree) (rest : ControlTrees)

end

/-! ## Reading -/

/-- A tree and the index behind its tokens. -/
structure Read where
  tree : ControlTree
  pos : Nat

structure ReadAll where
  trees : ControlTrees
  pos : Nat

section reading

variable (sql : Text) (tokens : List Token)

def readLeaf (blockDepth pos : Nat) : Except Failure Read := do
  let stop ← leafEnd sql tokens pos blockDepth (tokens.length - pos) pos pos
  if stop = pos then .error (branchNeedsStatement sql tokens pos) else .ok ⟨.statement pos stop, stop⟩

def readItem (readIf : Nat → Except Failure Read) (blockDepth pos : Nat) : Except Failure Read :=
  if atLevel tokens pos blockDepth && tokenWord sql tokens pos "if" then readIf pos else readLeaf sql tokens blockDepth pos

def readSequence (readItem : Nat → Except Failure Read) (blockDepth : Nat) (stopAtEnd : Bool) :
    Nat → Nat → Except Failure ReadAll
  | turns, start =>
    let pos := behindSemicolons tokens blockDepth (tokens.length - start) start
    if pos ≥ tokens.length || (stopAtEnd && blockEnd sql tokens pos) then .ok ⟨.nil, pos⟩
    else if !atLevel tokens pos blockDepth then .error (boundaryInvalid sql tokens pos)
    else if tokenWord sql tokens pos "else" then .error (elseUnmatched sql tokens pos)
    else
      match turns with
      | 0 => .error outOfTurns
      | turns + 1 => do
        let item ← readItem pos
        let others ← readSequence readItem blockDepth stopAtEnd turns item.pos
        .ok ⟨.cons item.tree others.trees, others.pos⟩

def ControlTrees.isEmpty : ControlTrees → Bool
  | .nil => true
  | .cons _ _ => false

def readBranchBody (readItem : Nat → Nat → Except Failure Read) (blockDepth pos : Nat) : Except Failure ReadAll :=
  if pos ≥ tokens.length then .error (errorAt sql sql.length "SQL Server IF branch requires a statement")
  else if atLevel tokens pos blockDepth && blockBegin sql tokens pos then do
    let begins := (tokenAt tokens pos).start
    let items ← readSequence sql tokens (readItem (blockDepth + 1)) (blockDepth + 1) true tokens.length (pos + 1)
    if items.pos ≥ tokens.length || !blockEnd sql tokens items.pos then
      .error (errorAt sql begins "SQL Server IF branch has an unterminated BEGIN block")
    else if items.trees.isEmpty then
      .error (errorAt sql begins "SQL Server BEGIN block requires at least one statement")
    else .ok ⟨items.trees, items.pos + 1⟩
  else do
    let item ← readItem blockDepth pos
    .ok ⟨.cons item.tree .nil, item.pos⟩

def readIf : Nat → Nat → Except Failure Read
  | 0, _ =>
    .error (plainFailure .resourceLimit "SQL Server IF nesting exceeds the configured control depth")
  | levels + 1, pos => do
    let blockDepth := (tokenAt tokens pos).blockDepth
    let conditionStart := pos + 1
    if conditionStart ≥ tokens.length then
      .error (errorAt sql sql.length "SQL Server IF requires a condition")
    else
      let found ← branchStart sql tokens conditionStart blockDepth (tokens.length - conditionStart) conditionStart
      match found with
      | none => .error (errorAtToken sql tokens conditionStart "SQL Server IF requires a branch statement")
      | some start =>
        let body := readBranchBody sql tokens fun blockDepth => readItem sql tokens (readIf levels) blockDepth
        let first ← body blockDepth start
        let lookahead := behindSemicolons tokens blockDepth (tokens.length - first.pos) first.pos
        if atLevel tokens lookahead blockDepth && tokenWord sql tokens lookahead "else" then
          if elseBranchMissing sql tokens (lookahead + 1) then
            .error (errorAtToken sql tokens (lookahead + 1) "SQL Server ELSE requires a branch statement")
          else
            let second ← body blockDepth (lookahead + 1)
            .ok ⟨.ifElse conditionStart start first.trees second.trees, second.pos⟩
        else .ok ⟨.ifThen conditionStart start first.trees, first.pos⟩

/-- The trees of a whole text. -/
def readRoots : Except Failure ReadAll :=
  readSequence sql tokens (readItem sql tokens (readIf sql tokens controlMaxDepth) 0) 0 false tokens.length 0

end reading

/-! ## Sizes -/

instance : Add Tally where
  add left right :=
    ⟨left.node + right.node, left.branch + right.branch, left.item + right.item, left.unit + right.unit⟩

namespace Tally

variable (left right third : Tally)

@[simp] theorem add_node : (left + right).node = left.node + right.node := rfl
@[simp] theorem add_branch : (left + right).branch = left.branch + right.branch := rfl
@[simp] theorem add_item : (left + right).item = left.item + right.item := rfl
@[simp] theorem add_unit : (left + right).unit = left.unit + right.unit := rfl

@[simp]
theorem get_add (slot : ControlSlot) : (left + right).get slot = left.get slot + right.get slot := by
  cases slot <;> rfl

theorem add_assoc : left + right + third = left + (right + third) := by
  ext <;> simp [Nat.add_assoc]

@[simp]
theorem add_zero : left + ({} : Tally) = left := rfl

/-- One entry of an array. -/
def one (slot : ControlSlot) : Tally :=
  Tally.bump {} slot

theorem bump_eq (slot : ControlSlot) : left.bump slot = left + one slot := by
  cases slot <;> ext <;> simp [bump, one]

end Tally

mutual

/-- The entries below the item of a tree. -/
def ControlTree.size : ControlTree → Tally
  | .statement _ _ => ⟨0, 0, 0, 1⟩
  | .ifThen _ _ first => ⟨1, 1, 0, 1⟩ + first.size
  | .ifElse _ _ first second => ⟨1, 1, 0, 1⟩ + first.size + (⟨0, 1, 0, 0⟩ + second.size)

def ControlTrees.size : ControlTrees → Tally
  | .nil => {}
  | .cons head rest => ⟨0, 0, 1, 0⟩ + head.size + rest.size

end

def ControlTrees.count : ControlTrees → Nat
  | .nil => 0
  | .cons _ rest => rest.count + 1

mutual

/-- The references to items that the branches of a tree set aside. -/
def ControlTree.refs : ControlTree → Nat
  | .statement _ _ => 0
  | .ifThen _ _ first => first.count + first.refs
  | .ifElse _ _ first second => first.count + first.refs + (second.count + second.refs)

def ControlTrees.refs : ControlTrees → Nat
  | .nil => 0
  | .cons head rest => head.refs + rest.refs

end

/-! ## Writes -/

/-- The cursors of a pass. -/
structure Cursors where
  slots : Tally := {}
  branchRef : Nat := 0
  itemRef : Nat := 0
  deriving DecidableEq, Repr

/-- What a pass does: the entries and references it takes, and its stores, in the pass that lays the state out and in
the one that fills it. -/
@[ext]
structure Progress where
  size : Tally := {}
  branchRefs : Nat := 0
  itemRefs : Nat := 0
  laid : List ControlWrite := []
  filled : List ControlWrite := []

instance : Append Progress where
  append first second :=
    ⟨first.size + second.size, first.branchRefs + second.branchRefs, first.itemRefs + second.itemRefs,
      first.laid ++ second.laid, first.filled ++ second.filled⟩

namespace Progress

variable (first second third : Progress)

@[simp] theorem append_size : (first ++ second).size = first.size + second.size := rfl
@[simp] theorem append_branchRefs : (first ++ second).branchRefs = first.branchRefs + second.branchRefs := rfl
@[simp] theorem append_itemRefs : (first ++ second).itemRefs = first.itemRefs + second.itemRefs := rfl
@[simp] theorem append_laid : (first ++ second).laid = first.laid ++ second.laid := rfl
@[simp] theorem append_filled : (first ++ second).filled = first.filled ++ second.filled := rfl

@[simp]
theorem empty_append : ({} : Progress) ++ first = first := by
  have none : ({} : Tally) + first.size = first.size := by ext <;> simp
  ext1
  · exact none
  · exact Nat.zero_add _
  · exact Nat.zero_add _
  · rfl
  · rfl

@[simp]
theorem append_empty : first ++ ({} : Progress) = first := by
  ext1
  · rfl
  · rfl
  · rfl
  · exact List.append_nil _
  · exact List.append_nil _

theorem append_assoc : first ++ second ++ third = first ++ (second ++ third) := by
  ext1
  · exact Tally.add_assoc _ _ _
  · exact Nat.add_assoc _ _ _
  · exact Nat.add_assoc _ _ _
  · exact List.append_assoc _ _ _
  · exact List.append_assoc _ _ _

end Progress

def Cursors.past (cursors : Cursors) (progress : Progress) : Cursors :=
  ⟨cursors.slots + progress.size, cursors.branchRef + progress.branchRefs, cursors.itemRef + progress.itemRefs⟩

section progress

variable (tokens : List Token)

/-- A unit for the tokens from one to behind another. -/
def unitOf (kind : ControlUnitKind) (index start stop : Nat) : ControlUnit :=
  ⟨kind, index, (tokenAt tokens start).start, (tokenAt tokens (stop - 1)).stop - (tokenAt tokens start).start⟩

def takesUnit (kind : ControlUnitKind) (start stop : Nat) (cursors : Cursors) : Progress where
  size := .one .unit
  filled := [.unit cursors.slots.unit (unitOf tokens kind cursors.slots.unit start stop)]

def takesNode (branches : Nat) (cursors : Cursors) : Progress where
  size := .one .node
  branchRefs := branches
  filled := [.nodeOffset cursors.slots.node cursors.branchRef]

def takesItems (branch count : Nat) (cursors : Cursors) : Progress where
  itemRefs := count
  filled := [.branchOffset branch cursors.itemRef]

def ControlTree.kind : ControlTree → ControlItemKind
  | .statement _ _ => .statement
  | _ => .node

/-- The index of what the item of a tree refers to. -/
def ControlTree.index (slots : Tally) : ControlTree → Nat
  | .statement _ _ => slots.unit
  | _ => slots.node

/-- What the first branch takes. -/
def takesFirst (refOffset condition : Nat) (cursors : Cursors) : Progress where
  size := .one .branch
  filled := [.reference refOffset cursors.slots.branch, .condition cursors.slots.branch condition]

/-- What the branch behind ELSE takes. -/
def takesSecond (refOffset : Nat) (cursors : Cursors) : Progress where
  size := .one .branch
  filled := [.reference refOffset cursors.slots.branch, .otherwise cursors.slots.branch]

mutual

/-- What a pass does below the item of a tree. -/
def ControlTree.progress (cursors : Cursors) : ControlTree → Progress
  | .statement start stop => takesUnit tokens .statement start stop cursors
  | .ifThen start stop first =>
    let node := takesNode 1 cursors
    let condition := node ++ takesUnit tokens .condition start stop (cursors.past node)
    let branch := condition ++ takesFirst cursors.branchRef cursors.slots.unit (cursors.past condition)
    let items := takesItems cursors.slots.branch first.count (cursors.past branch)
    let body := branch ++ (items ++ first.progress (cursors.past branch).itemRef ((cursors.past branch).past items) ++
      { laid := [.branchCount cursors.slots.branch first.count] })
    body ++ { laid := [.nodeCount cursors.slots.node 1] }
  | .ifElse start stop first second =>
    let node := takesNode 2 cursors
    let condition := node ++ takesUnit tokens .condition start stop (cursors.past node)
    let branch := condition ++ takesFirst cursors.branchRef cursors.slots.unit (cursors.past condition)
    let items := takesItems cursors.slots.branch first.count (cursors.past branch)
    let body := branch ++ (items ++ first.progress (cursors.past branch).itemRef ((cursors.past branch).past items) ++
      { laid := [.branchCount cursors.slots.branch first.count] })
    let other := body ++ takesSecond (cursors.branchRef + 1) (cursors.past body)
    let others := takesItems (cursors.past body).slots.branch second.count (cursors.past other)
    let bodies := other ++ (others ++ second.progress (cursors.past other).itemRef ((cursors.past other).past others) ++
      { laid := [.branchCount (cursors.past body).slots.branch second.count] })
    bodies ++ { laid := [.nodeCount cursors.slots.node 2] }

/-- What a pass does for a sequence of trees whose references begin at an offset. -/
def ControlTrees.progress (refOffset : Nat) (cursors : Cursors) : ControlTrees → Progress
  | .nil => {}
  | .cons head rest =>
    let item : Progress := { size := .one .item }
    let target := item ++ head.progress (cursors.past item)
    let done := target ++ { filled := [.item cursors.slots.item ⟨head.kind, head.index (cursors.past item).slots⟩] } ++
      { filled := [.reference refOffset cursors.slots.item] }
    done ++ rest.progress (refOffset + 1) (cursors.past done)

end

/-- What a pass does for a tree with its item. -/
def ControlTree.itemProgress (cursors : Cursors) (tree : ControlTree) : Progress :=
  let item : Progress := { size := .one .item }
  item ++ tree.progress tokens (cursors.past item) ++
    { filled := [.item cursors.slots.item ⟨tree.kind, tree.index (cursors.past item).slots⟩] }

theorem ControlTrees.progress_cons (refOffset : Nat) (cursors : Cursors) (head : ControlTree) (rest : ControlTrees) :
    (ControlTrees.cons head rest).progress tokens refOffset cursors =
      let done := head.itemProgress tokens cursors ++ { filled := [.reference refOffset cursors.slots.item] }
      done ++ rest.progress tokens (refOffset + 1) (cursors.past done) := by
  rw [progress]
  rfl

/-- What a pass does for the body of a branch. -/
def ControlTrees.bodyProgress (branch : Nat) (cursors : Cursors) (trees : ControlTrees) : Progress :=
  let items := takesItems branch trees.count cursors
  items ++ trees.progress tokens cursors.itemRef (cursors.past items) ++ { laid := [.branchCount branch trees.count] }

/-- What a pass does from the IF to the first branch. -/
def takesHead (branches start stop : Nat) (cursors : Cursors) : Progress :=
  let node := takesNode branches cursors
  let condition := node ++ takesUnit tokens .condition start stop (cursors.past node)
  condition ++ takesFirst cursors.branchRef cursors.slots.unit (cursors.past condition)

theorem ControlTree.progress_ifThen (cursors : Cursors) (start stop : Nat) (first : ControlTrees) :
    (ControlTree.ifThen start stop first).progress tokens cursors =
      let head := takesHead tokens 1 start stop cursors
      head ++ first.bodyProgress tokens cursors.slots.branch (cursors.past head) ++
        { laid := [.nodeCount cursors.slots.node 1] } := by
  rw [progress]
  rfl

theorem ControlTree.progress_ifElse (cursors : Cursors) (start stop : Nat) (first second : ControlTrees) :
    (ControlTree.ifElse start stop first second).progress tokens cursors =
      let head := takesHead tokens 2 start stop cursors
      let body := head ++ first.bodyProgress tokens cursors.slots.branch (cursors.past head)
      let other := body ++ takesSecond (cursors.branchRef + 1) (cursors.past body)
      other ++ second.bodyProgress tokens (cursors.past body).slots.branch (cursors.past other) ++
        { laid := [.nodeCount cursors.slots.node 2] } := by
  rw [progress]
  rfl

end progress

end SqlParser.Sqlserver
