import SqlParser.Core.Basic

/-! # The surface traversal of an AST

`sqlparser_dialect_ast_surface.c` visits the nodes of a protobuf AST in the order in which
their texts stand in the statement, and walks a tree beside its clone. A node has the address
of its message, the data that the visitor reads and its message fields in the order of their
descriptor; an absent field or an array element that is missing has no entry.
-/

namespace SqlParser.Core

/-! ## Messages -/

/-- `PgQuery__SetOperation` -/
inductive SetOperation where
  | undefined
  | none
  | union
  | intersect
  | except
  deriving DecidableEq, Repr

/-- `PgQuery__LimitClauseStyle` -/
inductive LimitClauseStyle where
  | default
  | offsetRows
  | limit
  | fetchFirst
  | fetchNext
  deriving DecidableEq, Repr

/-- The descriptor of a message, with the scalar fields that the visitor reads. -/
inductive Descriptor where
  | parseResult
  | rawStmt
  | aConst
  | paramRef
  | rangeVar
  | rangeSubselect
  | selectStmt (op : SetOperation) (limitClauseStyle : LimitClauseStyle)
  | insertStmt
  | updateStmt
  | deleteStmt
  | mergeStmt
  | joinExpr
  | resTarget
  | viewStmt
  | createTableAsStmt
  | other (name : Nat)
  deriving DecidableEq, Repr

/-- `source->descriptor == clone->descriptor` -/
def Descriptor.same : Descriptor → Descriptor → Bool
  | .selectStmt _ _, .selectStmt _ _ => true
  | source, clone => source = clone

/-- The message fields that the visitor names; the other ones have their number. -/
inductive Field where
  | stmts | stmt
  | sval | bsval
  | withClause | larg | rarg | distinctClause | targetList | intoClause | fromClause | whereClause | startWithClause
  | connectByClause | groupClause | havingClause | windowClause | valuesLists | sortClause | limitCount | limitOffset
  | lockingClause
  | relation | cols | selectStmt | onConflictClause | returningList
  | usingClause | sourceRelation | joinCondition | mergeWhenClauses
  | joinUsingAlias | quals | alias
  | val | indirection
  | view | aliases | query | options | into
  | number (id : Nat)
  deriving DecidableEq, Repr

mutual

/-- `ProtobufCMessage` -/
inductive Message where
  | node (address : Nat) (descriptor : Descriptor) (children : Children)

inductive Children where
  | nil
  | cons (field : Field) (child : Message) (rest : Children)

end

namespace Children

def has (field : Field) : Children → Bool
  | .nil => false
  | .cons other _ rest => other = field || rest.has field

end Children

def Message.address : Message → Nat
  | .node address _ _ => address

mutual

/-- A message and the ones below it. -/
def Message.messages : Message → List Message
  | .node address descriptor children => .node address descriptor children :: children.messages

def Children.messages : Children → List Message
  | .nil => []
  | .cons _ child rest => child.messages ++ rest.messages

end

def Message.addresses (message : Message) : List Nat :=
  message.messages.map Message.address

/-! ## The visitor -/

/-- A call of a visitor, with the message it is given. -/
inductive Event where
  | stringLiteral (literal : Nat)
  | paramRef (paramRef : Nat)
  | relation (relation : Nat)
  | derivedRelation (relation : Nat)
  | insertRelation (relation : Nat)
  | join (join : Nat)
  | selectLimit (select : Nat)
  | setOperation (select : Nat) (op : SetOperation)
  deriving DecidableEq, Repr

mutual

/-- `sqlparser_dialect_ast_surface_visit_message` -/
def visitMessage : Message → List Event
  | .node address descriptor children =>
    match descriptor with
    | .aConst => if children.has .sval || children.has .bsval then [.stringLiteral address] else []
    | .paramRef => [.paramRef address]
    | .rangeVar => .relation address :: visitGeneric children
    | .rangeSubselect => .derivedRelation address :: visitGeneric children
    | .selectStmt op limitClauseStyle =>
      visitFields .withClause children ++
        (if op ≠ .none then
          visitFields .larg children ++ .setOperation address op :: visitFields .rarg children
        else
          [Field.distinctClause, .targetList, .intoClause, .fromClause, .whereClause, .startWithClause,
            .connectByClause, .groupClause, .havingClause, .windowClause, .valuesLists].flatMap
              fun field => visitFields field children) ++
        visitFields .sortClause children ++
        (if children.has .limitCount && limitClauseStyle = .limit then [.selectLimit address] else []) ++
        [Field.limitCount, .limitOffset, .lockingClause].flatMap fun field => visitFields field children
    | .insertStmt =>
      visitFields .withClause children ++ visitInsertRelation children ++
        [Field.cols, .selectStmt, .onConflictClause, .returningList].flatMap fun field => visitFields field children
    | .updateStmt =>
      [Field.withClause, .relation, .targetList, .fromClause, .whereClause, .returningList].flatMap
        fun field => visitFields field children
    | .deleteStmt =>
      [Field.withClause, .relation, .usingClause, .whereClause, .returningList].flatMap
        fun field => visitFields field children
    | .mergeStmt =>
      [Field.withClause, .relation, .sourceRelation, .joinCondition, .mergeWhenClauses, .returningList].flatMap
        fun field => visitFields field children
    | .joinExpr =>
      visitFields .larg children ++ .join address ::
        [Field.rarg, .usingClause, .joinUsingAlias, .quals, .alias].flatMap fun field => visitFields field children
    | .resTarget => [Field.val, .indirection].flatMap fun field => visitFields field children
    | .viewStmt => [Field.view, .aliases, .query, .options].flatMap fun field => visitFields field children
    | .createTableAsStmt => [Field.into, .query].flatMap fun field => visitFields field children
    | .parseResult | .rawStmt | .other _ => visitGeneric children

/-- The visit of the children in one field, of which an array has several. -/
def visitFields (field : Field) : Children → List Event
  | .nil => []
  | .cons other child rest => (if other = field then visitMessage child else []) ++ visitFields field rest

/-- The relation of an INSERT, which is announced by its own call. -/
def visitInsertRelation : Children → List Event
  | .nil => []
  | .cons field (.node address _ children) rest =>
    (if field = .relation then .insertRelation address :: visitGeneric children else []) ++ visitInsertRelation rest

/-- `sqlparser_dialect_ast_surface_visit_generic` -/
def visitGeneric : Children → List Event
  | .nil => []
  | .cons _ child rest => visitMessage child ++ visitGeneric rest

end

/-- `sqlparser_dialect_ast_surface_visit_roots` -/
def visitRoots (roots : List Message) : List Event :=
  roots.flatMap visitMessage

/-- `PgQuery__RawStmt` -/
structure RawStmt where
  address : Nat
  stmt : Option Message

/-- `PgQuery__ParseResult` -/
structure ParseResult where
  address : Nat
  stmts : List RawStmt

def RawStmt.message (raw : RawStmt) : Message :=
  .node raw.address .rawStmt (raw.stmt.elim .nil fun stmt => .cons .stmt stmt .nil)

def stmtFields : List RawStmt → Children
  | [] => .nil
  | raw :: stmts => .cons .stmts raw.message (stmtFields stmts)

def ParseResult.message (ast : ParseResult) : Message :=
  .node ast.address .parseResult (stmtFields ast.stmts)

/-- `sqlparser_dialect_ast_surface_visit` -/
def surfaceVisit (ast : ParseResult) : List Event :=
  ast.stmts.flatMap fun raw => raw.stmt.elim [] visitMessage

/-- The statements in order are what the visit of the whole AST as a root goes through. -/
theorem visitRoots_message (ast : ParseResult) : visitRoots [ast.message] = surfaceVisit ast := by
  have raw_visit (raw : RawStmt) : visitMessage raw.message = raw.stmt.elim [] visitMessage := by
    cases stmt : raw.stmt <;> simp [RawStmt.message, visitMessage, visitGeneric, stmt]
  have generic (stmts : List RawStmt) :
      visitGeneric (stmtFields stmts) = stmts.flatMap fun raw => raw.stmt.elim [] visitMessage := by
    induction stmts with
    | nil => simp [stmtFields, visitGeneric]
    | cons raw stmts inductionHypothesis =>
      rw [stmtFields, visitGeneric, raw_visit, inductionHypothesis, List.flatMap_cons]
  rw [visitRoots, List.flatMap_singleton, ParseResult.message, visitMessage, generic, surfaceVisit]

/-! ## The nodes that records are about -/

/-- The two kinds of records that follow their nodes. -/
inductive RecordKind where
  | stringLiteral
  | exceptOperation
  deriving DecidableEq, Repr

/-- The node of a call that a kind of records counts. -/
def Event.counted : RecordKind → Event → Option Nat
  | .stringLiteral, .stringLiteral literal => some literal
  | .exceptOperation, .setOperation select .except => some select
  | _, _ => none

def Message.isOf : RecordKind → Message → Bool
  | .stringLiteral, .node _ .aConst children => children.has .sval || children.has .bsval
  | .exceptOperation, .node _ (.selectStmt .except _) _ => true
  | _, _ => false

/-- The nodes of a kind in the order of a visit. -/
def counted (kind : RecordKind) (events : List Event) : List Nat :=
  events.filterMap (Event.counted kind)

/-- The nodes of a kind among some messages. -/
def ownersOf (kind : RecordKind) (messages : List Message) : List Nat :=
  (messages.filter (Message.isOf kind)).map Message.address

section counted

variable {kind : RecordKind} {node : Nat}

@[simp] theorem counted_append (first second : List Event) :
    counted kind (first ++ second) = counted kind first ++ counted kind second :=
  List.filterMap_append

@[simp] theorem counted_nil : counted kind [] = [] :=
  rfl

@[simp] theorem counted_cons (event : Event) (events : List Event) :
    counted kind (event :: events) = (event.counted kind).toList ++ counted kind events := by
  cases made : event.counted kind <;> simp [counted, made]

@[simp] theorem ownersOf_append (first second : List Message) :
    ownersOf kind (first ++ second) = ownersOf kind first ++ ownersOf kind second := by
  simp [ownersOf]

theorem count_flatMap_fields (fields : List Field) (children : Children) :
    (counted kind (fields.flatMap fun field => visitFields field children)).count node =
      (fields.map fun field => (counted kind (visitFields field children)).count node).sum := by
  induction fields with
  | nil => simp [counted]
  | cons field fields inductionHypothesis => simp [inductionHypothesis, List.count_append]

theorem sum_single_le {fields : List Field} (nodup : fields.Nodup) (other : Field) (weight : Nat) :
    (fields.map fun field => if other = field then weight else 0).sum ≤ weight := by
  induction fields with
  | nil => simp
  | cons field fields inductionHypothesis =>
    obtain ⟨missing, nodup'⟩ := List.nodup_cons.mp nodup
    rw [List.map_cons, List.sum_cons]
    split
    next same =>
      have rest : (fields.map fun field => if other = field then weight else 0) = fields.map fun _ => 0 := by
        refine List.map_congr_left fun field' listed => if_neg ?_
        rintro rfl
        exact missing (same ▸ listed)
      simp [rest]
    next => simpa using inductionHypothesis nodup'

theorem count_ownersOf_node (address : Nat) (descriptor : Descriptor) (children : Children) :
    (ownersOf kind (Message.node address descriptor children).messages).count node =
      (if (Message.node address descriptor children).isOf kind then [address] else []).count node +
        (ownersOf kind children.messages).count node := by
  rw [Message.messages, ownersOf, List.filter_cons, ← List.count_append]
  split <;> rfl

theorem counted_if (condition : Prop) [Decidable condition] (events : List Event) :
    (counted kind (if condition then events else [])).count node =
      if condition then (counted kind events).count node else 0 := by
  split <;> simp [counted]

/-- The call for a LIMIT is not counted. -/
@[simp] theorem counted_selectLimit (condition : Prop) [Decidable condition] (select : Nat) :
    counted kind (if condition then [.selectLimit select] else []) = [] := by
  split
  · cases kind <;> rfl
  · rfl

mutual

/-- A visit counts a node at most as often as it is there. -/
theorem count_visitMessage : ∀ message : Message,
    (counted kind (visitMessage message)).count node ≤ (ownersOf kind message.messages).count node
  | .node address descriptor children => by
    have fields := count_visitFields children
    have generic := count_visitGeneric children
    rw [count_ownersOf_node]
    cases descriptor with
    | aConst =>
      cases kind <;> by_cases string : children.has .sval || children.has .bsval <;>
        simp [visitMessage, Message.isOf, Event.counted, string]
    | paramRef => cases kind <;> simp [visitMessage, Event.counted]
    | rangeVar | rangeSubselect => cases kind <;> simp [visitMessage, Event.counted] <;> omega
    | parseResult | rawStmt | other => rw [visitMessage]; omega
    | selectStmt op limitClauseStyle =>
      by_cases single : op = .none
      · have inside := fields [.withClause, .distinctClause, .targetList, .intoClause, .fromClause, .whereClause,
          .startWithClause, .connectByClause, .groupClause, .havingClause, .windowClause, .valuesLists, .sortClause,
          .limitCount, .limitOffset, .lockingClause] (by decide)
        simp [visitMessage, List.count_append, single] at inside ⊢
        omega
      · have inside := fields [.withClause, .larg, .rarg, .sortClause, .limitCount, .limitOffset, .lockingClause] (by decide)
        cases kind <;> cases op <;>
          simp [visitMessage, List.count_append, List.count_cons, Event.counted, Message.isOf] at single inside ⊢ <;> omega
    | insertStmt =>
      have inside := count_visitInsertRelation children [.withClause, .cols, .selectStmt, .onConflictClause, .returningList]
        (by decide)
      simp [visitMessage, List.count_append] at inside ⊢
      omega
    | joinExpr =>
      have inside := fields [.larg, .rarg, .usingClause, .joinUsingAlias, .quals, .alias] (by decide)
      cases kind <;> simp [visitMessage, List.count_append, Event.counted] at inside ⊢ <;> omega
    | updateStmt | deleteStmt | mergeStmt | resTarget | viewStmt | createTableAsStmt =>
      rw [visitMessage, count_flatMap_fields]
      exact (fields _ (by decide)).trans (Nat.le_add_left _ _)

/-- Different fields have different children. -/
theorem count_visitFields : ∀ (children : Children) (fields : List Field), fields.Nodup →
    (fields.map fun field => (counted kind (visitFields field children)).count node).sum ≤
      (ownersOf kind children.messages).count node
  | .nil, fields, _ => by simp [visitFields, counted]
  | .cons other child rest, fields, nodup => by
    have one := count_visitMessage child
    have others := count_visitFields rest fields nodup
    have single := sum_single_le nodup other ((counted kind (visitMessage child)).count node)
    simp only [visitFields, counted_append, List.count_append, counted_if, List.sum_map_add, Children.messages,
      ownersOf_append]
    omega

theorem count_visitInsertRelation : ∀ (children : Children) (fields : List Field), (Field.relation :: fields).Nodup →
    (counted kind (visitInsertRelation children)).count node +
        (fields.map fun field => (counted kind (visitFields field children)).count node).sum ≤
      (ownersOf kind children.messages).count node
  | .nil, fields, _ => by simp [visitFields, visitInsertRelation, counted]
  | .cons other (.node address descriptor children) rest, fields, nodup => by
    have one := count_visitMessage (.node address descriptor children)
    have relation := count_visitGeneric children
    have others := count_visitInsertRelation rest fields nodup
    have announced : (Event.insertRelation address).counted kind = none := by cases kind <;> rfl
    have single := sum_single_le nodup other ((counted kind (visitMessage (.node address descriptor children))).count node)
    rw [count_ownersOf_node] at one
    rw [List.map_cons, List.sum_cons] at single
    simp only [visitInsertRelation, visitFields, counted_append, List.count_append, counted_if, List.sum_map_add,
      Children.messages, ownersOf_append, count_ownersOf_node, counted_cons, announced, Option.toList_none, List.nil_append]
    by_cases same : other = .relation
    · simp only [same, if_true] at single ⊢
      omega
    · simp only [same, if_false] at single ⊢
      omega

theorem count_visitGeneric : ∀ children : Children,
    (counted kind (visitGeneric children)).count node ≤ (ownersOf kind children.messages).count node
  | .nil => by simp [visitGeneric, counted]
  | .cons _ child rest => by
    have one := count_visitMessage child
    have others := count_visitGeneric rest
    simp only [visitGeneric, counted_append, List.count_append, Children.messages, ownersOf_append]
    omega

end

end counted

/-! ## What a visit counts -/

def messagesOf (roots : List Message) : List Message :=
  roots.flatMap Message.messages

def addressesOf (roots : List Message) : List Nat :=
  (messagesOf roots).map Message.address

theorem count_visitRoots {kind : RecordKind} {node : Nat} (roots : List Message) :
    (counted kind (visitRoots roots)).count node ≤ (ownersOf kind (messagesOf roots)).count node := by
  induction roots with
  | nil => simp [visitRoots]
  | cons root roots inductionHypothesis =>
    have one : (counted kind (visitMessage root)).count node ≤ (ownersOf kind root.messages).count node :=
      count_visitMessage root
    simp only [visitRoots, messagesOf, List.flatMap_cons, counted_append, ownersOf_append, List.count_append]
      at inductionHypothesis ⊢
    exact Nat.add_le_add one inductionHypothesis

/-- What a visit counts is there. -/
theorem mem_ownersOf_of_counted {kind : RecordKind} {node : Nat} {roots : List Message}
    (visited : node ∈ counted kind (visitRoots roots)) : node ∈ ownersOf kind (messagesOf roots) := by
  rw [← List.count_pos_iff] at visited ⊢
  exact visited.trans_le (count_visitRoots roots)

theorem ownersOf_sublist (kind : RecordKind) (messages : List Message) :
    (ownersOf kind messages).Sublist (messages.map Message.address) :=
  List.filter_sublist.map Message.address

theorem counted_subset {kind : RecordKind} {roots : List Message} : counted kind (visitRoots roots) ⊆ addressesOf roots :=
  fun _ visited => (ownersOf_sublist kind _).subset (mem_ownersOf_of_counted visited)

/-- When different nodes have different addresses a visit counts no node twice. -/
theorem counted_nodup {kind : RecordKind} {roots : List Message} (distinct : (addressesOf roots).Nodup) :
    (counted kind (visitRoots roots)).Nodup := by
  have owners := distinct.sublist (ownersOf_sublist kind (messagesOf roots))
  rw [List.nodup_iff_count_le_one] at owners ⊢
  exact fun node => (count_visitRoots roots).trans (owners node)

mutual

/-- What is below a part of a message is below the message. -/
theorem Message.messages_subset : ∀ (message : Message) {part : Message}, part ∈ message.messages →
    part.messages ⊆ message.messages
  | .node address descriptor children, part, here => by
    rw [Message.messages] at here
    obtain rfl | below := List.mem_cons.mp here
    · exact List.Subset.refl _
    · rw [Message.messages]
      exact List.subset_cons_of_subset _ (Children.messages_subset children below)

theorem Children.messages_subset : ∀ (children : Children) {part : Message}, part ∈ children.messages →
    part.messages ⊆ children.messages
  | .nil, part, here => by
    rw [Children.messages] at here
    cases here
  | .cons field child rest, part, here => by
    rw [Children.messages] at here ⊢
    obtain first | second := List.mem_append.mp here
    · exact List.subset_append_of_subset_left _ (Message.messages_subset child first)
    · exact List.subset_append_of_subset_right _ (Children.messages_subset rest second)

end

/-- When addresses are distinct, a counted node that a part of the message has is counted in the part. -/
theorem mem_ownersOf_part {kind : RecordKind} {message part : Message} (distinct : message.addresses.Nodup)
    (below : part ∈ message.messages) {node : Nat} (owner : node ∈ ownersOf kind message.messages)
    (inside : node ∈ part.addresses) : node ∈ ownersOf kind part.messages := by
  obtain ⟨first, listed, same⟩ := List.mem_map.mp owner
  obtain ⟨listed, isOwner⟩ := List.mem_filter.mp listed
  obtain ⟨second, there, same'⟩ := List.mem_map.mp inside
  have one : first = second :=
    List.inj_on_of_nodup_map distinct listed (message.messages_subset below there) (same.trans same'.symm)
  rw [← one] at there
  exact List.mem_map.mpr ⟨first, List.mem_filter.mpr ⟨there, isOwner⟩, same⟩

/-! ## The clone visitor -/

/-- A call of a clone visitor, with the message and its clone. -/
inductive CloneEvent where
  | stringLiteral (isString : Bool) (source clone : Nat)
  | relation (source clone : Nat)
  | join (source clone : Nat)
  | setOperation (op : SetOperation) (source clone : Nat)
  | selectLimit (source clone : Nat)
  deriving DecidableEq, Repr

/-- The calls for a message itself. -/
def cloneEvents (address : Nat) (descriptor : Descriptor) (children : Children) (clone : Nat) : List CloneEvent :=
  match descriptor with
  | .aConst => [.stringLiteral (children.has .sval || children.has .bsval) address clone]
  | .rangeVar => [.relation address clone]
  | .joinExpr => [.join address clone]
  | .selectStmt op limitClauseStyle =>
    (if op ≠ .none then [.setOperation op address clone] else []) ++
      if children.has .limitCount && limitClauseStyle = .limit then [.selectLimit address clone] else []
  | _ => []

mutual

/-- `sqlparser_dialect_ast_surface_clone`; it fails when the shapes differ. -/
def surfaceClone : Message → Message → Option (List CloneEvent)
  | .node address descriptor children, .node cloneAddress cloneDescriptor cloneChildren =>
    if descriptor.same cloneDescriptor then
      (surfaceCloneFields children cloneChildren).map (cloneEvents address descriptor children cloneAddress ++ ·)
    else none

def surfaceCloneFields : Children → Children → Option (List CloneEvent)
  | .nil, .nil => some []
  | .cons field child rest, .cons cloneField clone cloneRest =>
    if field = cloneField then
      match surfaceClone child clone with
      | some events => (surfaceCloneFields rest cloneRest).map (events ++ ·)
      | none => none
    else none
  | _, _ => none

end

mutual

/-- A deep copy, whose nodes have new addresses. -/
def Message.copy (fresh : Nat → Nat) : Message → Message
  | .node address descriptor children => .node (fresh address) descriptor (children.copy fresh)

def Children.copy (fresh : Nat → Nat) : Children → Children
  | .nil => .nil
  | .cons field child rest => .cons field (child.copy fresh) (rest.copy fresh)

end

/-- The node of a kind and its clone, in a call. -/
def CloneEvent.counted : RecordKind → CloneEvent → Option (Nat × Nat)
  | .stringLiteral, .stringLiteral true source clone => some (source, clone)
  | .exceptOperation, .setOperation .except source clone => some (source, clone)
  | _, _ => none

def countedPairs (kind : RecordKind) (events : List CloneEvent) : List (Nat × Nat) :=
  events.filterMap (CloneEvent.counted kind)

@[simp] theorem Descriptor.same_self (descriptor : Descriptor) : descriptor.same descriptor = true := by
  cases descriptor <;> simp [Descriptor.same]

section copy

variable (fresh : Nat → Nat)

mutual

theorem Message.addresses_copy : ∀ message : Message, (message.copy fresh).addresses = message.addresses.map fresh
  | .node address descriptor children => by
    have below := Children.addresses_copy children
    simp only [Message.addresses, Message.copy, Message.messages, List.map_cons, Message.address] at below ⊢
    rw [below]

theorem Children.addresses_copy : ∀ children : Children,
    (children.copy fresh).messages.map Message.address = (children.messages.map Message.address).map fresh
  | .nil => by simp [Children.copy, Children.messages]
  | .cons field child rest => by
    have one := Message.addresses_copy child
    have others := Children.addresses_copy rest
    simp only [Message.addresses] at one
    rw [Children.copy, Children.messages, Children.messages, List.map_append, one, others, List.map_append, List.map_append]

end

variable {kind : RecordKind}

theorem countedPairs_cloneEvents (address : Nat) (descriptor : Descriptor) (children : Children) (clone : Nat) :
    countedPairs kind (cloneEvents address descriptor children clone) =
      if (Message.node address descriptor children).isOf kind then [(address, clone)] else [] := by
  cases descriptor with
  | aConst =>
    cases kind <;> by_cases string : children.has .sval || children.has .bsval <;>
      simp [cloneEvents, countedPairs, CloneEvent.counted, Message.isOf, string]
  | selectStmt op limitClauseStyle =>
    cases kind <;> cases op <;> by_cases limited : children.has .limitCount && limitClauseStyle = .limit <;>
      simp [cloneEvents, countedPairs, CloneEvent.counted, Message.isOf, limited]
  | _ => cases kind <;> simp [cloneEvents, countedPairs, CloneEvent.counted, Message.isOf]

theorem countedPairs_append (first second : List CloneEvent) :
    countedPairs kind (first ++ second) = countedPairs kind first ++ countedPairs kind second :=
  List.filterMap_append

mutual

/-- The walk of a tree beside its copy succeeds and goes through the nodes of a kind and their copies. -/
theorem surfaceClone_copy : ∀ message : Message, ∃ events, surfaceClone message (message.copy fresh) = some events ∧
    countedPairs kind events = (ownersOf kind message.messages).map fun node => (node, fresh node)
  | .node address descriptor children => by
    obtain ⟨events, walked, pairs⟩ := surfaceCloneFields_copy children
    refine ⟨_, by rw [Message.copy, surfaceClone, if_pos descriptor.same_self, walked, Option.map_some], ?_⟩
    rw [countedPairs_append, countedPairs_cloneEvents, pairs, Message.messages, ownersOf, ownersOf, List.filter_cons]
    split <;> rfl

theorem surfaceCloneFields_copy : ∀ children : Children,
    ∃ events, surfaceCloneFields children (children.copy fresh) = some events ∧
      countedPairs kind events = (ownersOf kind children.messages).map fun node => (node, fresh node)
  | .nil => ⟨[], by rw [Children.copy, surfaceCloneFields], rfl⟩
  | .cons field child rest => by
    obtain ⟨events, walked, pairs⟩ := surfaceClone_copy child
    obtain ⟨others, walked', pairs'⟩ := surfaceCloneFields_copy rest
    refine ⟨events ++ others, by simp [Children.copy, surfaceCloneFields, walked, walked'], ?_⟩
    rw [countedPairs_append, pairs, pairs', Children.messages, ownersOf_append, List.map_append]

end

end copy

end SqlParser.Core
