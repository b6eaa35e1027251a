import SqlParser.Core.RecordHistory
import SqlParser.Library.Numbering

/-! # Preparing the binds of an AST

After an edit the parameters of an AST refer to the bind names of the source.
`sqlparser_dialect_prepare_binds` gives them the numbers 1 to n in traversal order and lists their
names, and `sqlparser_dialect_reconcile_binds` puts the list in the place of the table.
-/

namespace SqlParser.Core

open SqlParser.Library.Numbering

/-! ## The parameters of an AST -/

def Event.paramRefNode : Event → Option Nat
  | .paramRef node => some node
  | _ => none

/-- The parameter nodes in the order of a visit. -/
def paramRefs (events : List Event) : List Nat :=
  events.filterMap Event.paramRefNode

section paramRefs

variable {node : Nat}

@[simp] theorem paramRefs_nil : paramRefs [] = [] :=
  rfl

@[simp] theorem paramRefs_append (first second : List Event) : paramRefs (first ++ second) = paramRefs first ++ paramRefs second :=
  List.filterMap_append

@[simp] theorem paramRefs_cons (event : Event) (events : List Event) :
    paramRefs (event :: events) = event.paramRefNode.toList ++ paramRefs events := by
  cases made : event.paramRefNode <;> simp [paramRefs, made]

theorem paramRefs_if (condition : Prop) [Decidable condition] (events : List Event) :
    (paramRefs (if condition then events else [])).count node = if condition then (paramRefs events).count node else 0 := by
  split <;> simp

@[simp] theorem paramRefs_selectLimit (condition : Prop) [Decidable condition] (select : Nat) :
    paramRefs (if condition then [.selectLimit select] else []) = [] := by
  split <;> rfl

theorem paramRefs_flatMap_fields (fields : List Field) (children : Children) :
    (paramRefs (fields.flatMap fun field => visitFields field children)).count node =
      (fields.map fun field => (paramRefs (visitFields field children)).count node).sum := by
  induction fields with
  | nil => rfl
  | cons field fields inductionHypothesis => simp [inductionHypothesis, List.count_append]

theorem count_addresses_node (address : Nat) (descriptor : Descriptor) (children : Children) :
    ((Message.node address descriptor children).messages.map Message.address).count node =
      (if address = node then 1 else 0) + (children.messages.map Message.address).count node := by
  rw [Message.messages, List.map_cons, List.count_cons, Nat.add_comm]
  simp [Message.address]

mutual

/-- A visit calls for a parameter node at most as often as it is there. -/
theorem count_paramRefs : ∀ message : Message,
    (paramRefs (visitMessage message)).count node ≤ (message.messages.map Message.address).count node
  | .node address descriptor children => by
    have fields := count_paramRefs_fields children
    have generic := count_paramRefs_generic children
    rw [count_addresses_node]
    cases descriptor with
    | aConst =>
      by_cases string : children.has .sval || children.has .bsval <;> simp [visitMessage, string, Event.paramRefNode]
    | paramRef => simp [visitMessage, Event.paramRefNode, List.count_singleton]
    | rangeVar | rangeSubselect =>
      simp only [visitMessage, paramRefs_cons, Event.paramRefNode, Option.toList_none, List.nil_append]
      omega
    | parseResult | rawStmt | other =>
      rw [visitMessage]
      omega
    | selectStmt op limitClauseStyle =>
      by_cases single : op = .none
      · have inside := fields [.withClause, .distinctClause, .targetList, .intoClause, .fromClause, .whereClause,
          .startWithClause, .connectByClause, .groupClause, .havingClause, .windowClause, .valuesLists, .sortClause,
          .limitCount, .limitOffset, .lockingClause] (by decide)
        simp [visitMessage, List.count_append, single] at inside ⊢
        omega
      · have inside := fields [.withClause, .larg, .rarg, .sortClause, .limitCount, .limitOffset, .lockingClause] (by decide)
        simp [visitMessage, List.count_append, single, Event.paramRefNode] at inside ⊢
        omega
    | insertStmt =>
      have inside := count_paramRefs_insertRelation children
        [.withClause, .cols, .selectStmt, .onConflictClause, .returningList] (by decide)
      simp [visitMessage, List.count_append] at inside ⊢
      omega
    | joinExpr =>
      have inside := fields [.larg, .rarg, .usingClause, .joinUsingAlias, .quals, .alias] (by decide)
      simp [visitMessage, List.count_append, Event.paramRefNode] at inside ⊢
      omega
    | updateStmt | deleteStmt | mergeStmt | resTarget | viewStmt | createTableAsStmt =>
      rw [visitMessage, paramRefs_flatMap_fields]
      exact (fields _ (by decide)).trans (Nat.le_add_left _ _)

theorem count_paramRefs_fields : ∀ (children : Children) (fields : List Field), fields.Nodup →
    (fields.map fun field => (paramRefs (visitFields field children)).count node).sum ≤
      (children.messages.map Message.address).count node
  | .nil, fields, _ => by simp [visitFields]
  | .cons other child rest, fields, nodup => by
    have one := count_paramRefs child
    have others := count_paramRefs_fields rest fields nodup
    have single := sum_single_le nodup other ((paramRefs (visitMessage child)).count node)
    simp only [visitFields, paramRefs_append, List.count_append, paramRefs_if, List.sum_map_add, Children.messages,
      List.map_append]
    omega

theorem count_paramRefs_insertRelation : ∀ (children : Children) (fields : List Field), (Field.relation :: fields).Nodup →
    (paramRefs (visitInsertRelation children)).count node +
        (fields.map fun field => (paramRefs (visitFields field children)).count node).sum ≤
      (children.messages.map Message.address).count node
  | .nil, fields, _ => by simp [visitFields, visitInsertRelation]
  | .cons other (.node address descriptor children) rest, fields, nodup => by
    have one := count_paramRefs (.node address descriptor children)
    have relation := count_paramRefs_generic children
    have others := count_paramRefs_insertRelation rest fields nodup
    have single := sum_single_le nodup other ((paramRefs (visitMessage (.node address descriptor children))).count node)
    rw [count_addresses_node] at one
    rw [List.map_cons, List.sum_cons] at single
    simp only [visitInsertRelation, visitFields, paramRefs_append, List.count_append, paramRefs_if, List.sum_map_add,
      Children.messages, List.map_append, count_addresses_node, paramRefs_cons, Event.paramRefNode, Option.toList_none,
      List.nil_append]
    by_cases same : other = .relation
    · simp only [same, if_true] at single ⊢
      omega
    · simp only [same, if_false] at single ⊢
      omega

theorem count_paramRefs_generic : ∀ children : Children,
    (paramRefs (visitGeneric children)).count node ≤ (children.messages.map Message.address).count node
  | .nil => by simp [visitGeneric]
  | .cons _ child rest => by
    have one := count_paramRefs child
    have others := count_paramRefs_generic rest
    simp only [visitGeneric, paramRefs_append, List.count_append, Children.messages, List.map_append]
    omega

end

end paramRefs

/-- The parameters of a live AST are visited once. -/
theorem Ast.paramRefs_nodup (ast : Ast) : (paramRefs (surfaceVisit ast.result)).Nodup := by
  have distinct := ast.live.distinct
  rw [← visitRoots_message, visitRoots, List.flatMap_singleton]
  rw [List.nodup_iff_count_le_one] at distinct ⊢
  exact fun node => (count_paramRefs ast.result.message).trans (distinct node)

/-! ## The visit -/

/-- `sqlparser_dialect_prepared_binds_t`, whose count is the number of names; all zero stands for not prepared. -/
structure PreparedBinds where
  names : List Text := []
  capacity : Nat := 0
  occurrenceCount : Nat := 0
  valid : Bool := false
  deriving DecidableEq

/-- `sqlparser_dialect_bind_prepare_t`: the entry for a source number is zero until it is first used. -/
structure BindPrepare where
  sourceToPrepared : List Nat
  names : List Text
  updates : List (Nat × Nat)
  status : Status
  deriving DecidableEq

/-- The name of a source number, if the number and the entry are there. -/
def sourceName (sourceNames : List (Option Text)) (number : Int) : Option Text :=
  if number ≤ 0 ∨ number > sourceNames.length then none else (sourceNames[number.toNat - 1]?).join

/-- `sqlparser_dialect_bind_prepare_visit`, where `strdup` answers for each name that is copied. -/
def bindPrepareVisit (strdup : Nat → Bool) (sourceNames : List (Option Text)) (numbers : Nat → Int)
    (prepare : BindPrepare) (paramRef : Nat) : BindPrepare :=
  if prepare.status ≠ .ok then prepare
  else
    match sourceName sourceNames (numbers paramRef) with
    | none => { prepare with status := .internalError }
    | some name =>
      let sourceNumber := (numbers paramRef).toNat
      let preparedNumber := if name ≠ ascii "?" then prepare.sourceToPrepared.getD sourceNumber 0 else 0
      if preparedNumber = 0 then
        if strdup prepare.names.length then
          let count := prepare.names.length + 1
          { prepare with
            names := prepare.names ++ [name]
            sourceToPrepared :=
              if name ≠ ascii "?" then prepare.sourceToPrepared.set sourceNumber count else prepare.sourceToPrepared
            updates := prepare.updates ++ [(paramRef, count)] }
        else { prepare with status := .noMemory }
      else { prepare with updates := prepare.updates ++ [(paramRef, preparedNumber)] }

/-- The visit of the parameters from an all-zero context on. -/
def bindPrepareVisits (strdup : Nat → Bool) (sourceNames : List (Option Text)) (numbers : Nat → Int)
    (params : List Nat) : BindPrepare :=
  params.foldl (bindPrepareVisit strdup sourceNames numbers) ⟨List.replicate (sourceNames.length + 1) 0, [], [], .ok⟩

/-! ## The preparation -/

/-- What the allocator answers: for the three arrays, and for each copy of a name. -/
structure BindMemory where
  names : Bool
  updates : Bool
  sourceToPrepared : Bool
  strdup : Nat → Bool

def sizeofPointer : Nat := 8

def sizeofBindUpdate : Nat := 16

/-- `updates[index].owner->number = (int)updates[index].number` -/
def applyBindUpdates (numbers : Nat → Int) (updates : List (Nat × Nat)) : Nat → Int :=
  updates.foldl (fun numbers update => Function.update numbers update.1 update.2) numbers

def inconsistentBinds : Error := ⟨.internalError, "bind AST state is inconsistent"⟩

/-- `sqlparser_dialect_prepare_binds`: the result, the prepared state and the numbers of the parameters. -/
def prepareBinds (memory : BindMemory) (names : List (Option Text)) (ast : Option ParseResult) (prepared : PreparedBinds)
    (numbers : Nat → Int) : Except Error Unit × PreparedBinds × (Nat → Int) :=
  match ast with
  | none => (.error ⟨.invalidArgument, "bind prepare arguments must not be NULL"⟩, prepared, numbers)
  | some ast =>
    if prepared.valid then (.ok (), prepared, numbers)
    else if names = [] then (.ok (), prepared, numbers)
    else
      let params := paramRefs (surfaceVisit ast)
      let count := min params.length sizeMax
      if count = sizeMax ∨ count > int32Max ∨ count > sizeMax / sizeofPointer ∨ count > sizeMax / sizeofBindUpdate ∨
          names.length = sizeMax ∨ names.length + 1 > sizeMax / sizeofPointer then (.error outOfMemory, prepared, numbers)
      else if count > 0 ∧ (!memory.names ∨ !memory.updates) ∨ !memory.sourceToPrepared then (.error outOfMemory, {}, numbers)
      else
        let prepare := bindPrepareVisits memory.strdup names numbers params
        if prepare.status = .noMemory then (.error outOfMemory, {}, numbers)
        else if prepare.status ≠ .ok ∨ prepare.updates.length ≠ count then (.error inconsistentBinds, {}, numbers)
        else (.ok (), ⟨prepare.names, count, count, true⟩, applyBindUpdates numbers prepare.updates)

/-- The bind names of a dialect state, with the room of their array and the number of their occurrences. -/
structure BindTable where
  names : List (Option Text)
  capacity : Nat
  occurrenceCount : Nat

/-- `sqlparser_dialect_reconcile_binds`: the prepared state and the table. -/
def reconcileBinds (prepared : PreparedBinds) (table : BindTable) : PreparedBinds × BindTable :=
  if prepared.valid then ({}, ⟨prepared.names.map some, prepared.capacity, prepared.occurrenceCount⟩) else (prepared, table)

/-! ## What one visit does -/

section Visit

variable {strdup : Nat → Bool} {sourceNames : List (Option Text)} {numbers : Nat → Int}

/-- The source number of a parameter, unless its name is the one that is never shared. -/
def bindRequest (sourceNames : List (Option Text)) (numbers : Nat → Int) (param : Nat) : Option Nat :=
  if sourceName sourceNames (numbers param) = some (ascii "?") then none else some (numbers param).toNat

/-- The name of a slot that holds a source number, or zero for the name that is never shared. -/
def slotName (sourceNames : List (Option Text)) (slot : Nat) : Text :=
  if slot = 0 then ascii "?" else (sourceName sourceNames slot).getD []

/-- The context lists the names of the slots and knows the slot of each source number. -/
structure HoldsSlots (sourceNames : List (Option Text)) (prepare : BindPrepare) (slots : List Nat) : Prop where
  status : prepare.status = .ok
  names : prepare.names = slots.map (slotName sourceNames)
  room : prepare.sourceToPrepared.length = sourceNames.length + 1
  table : ∀ number, 0 < number → number ≤ sourceNames.length →
    prepare.sourceToPrepared.getD number 0 = ((slots.findIdx? (· = number)).map (· + 1)).getD 0

theorem sourceName_bounds {number : Int} {name : Text} (found : sourceName sourceNames number = some name) :
    0 < number ∧ number ≤ sourceNames.length := by
  rw [sourceName] at found
  split_ifs at found with outside
  omega

theorem sourceName_toNat {number : Int} {name : Text} (found : sourceName sourceNames number = some name) :
    sourceName sourceNames (number.toNat : Nat) = some name := by
  have bounds := sourceName_bounds found
  rwa [Int.toNat_of_nonneg (by omega)]

theorem holdsSlots_start (sourceNames : List (Option Text)) :
    HoldsSlots sourceNames ⟨List.replicate (sourceNames.length + 1) 0, [], [], .ok⟩ [] where
  status := rfl
  names := rfl
  room := List.length_replicate
  table number _ bound := by
    rw [List.getD_eq_getElem?_getD, List.getElem?_replicate]
    split <;> rfl

theorem bindPrepareVisit_failed {prepare : BindPrepare} (failed : prepare.status ≠ .ok) (param : Nat) :
    bindPrepareVisit strdup sourceNames numbers prepare param = prepare :=
  if_pos failed

/-- A name that is copied takes the next slot. -/
theorem HoldsSlots.append {prepare : BindPrepare} {slots : List Nat} (holds : HoldsSlots sourceNames prepare slots)
    {name : Text} {slot : Nat} (isName : slotName sourceNames slot = name) {sourceToPrepared : List Nat}
    (room : sourceToPrepared.length = sourceNames.length + 1) {updates : List (Nat × Nat)}
    (table : ∀ number, 0 < number → number ≤ sourceNames.length → sourceToPrepared.getD number 0 =
      (((slots ++ [slot]).findIdx? (· = number)).map (· + 1)).getD 0) :
    HoldsSlots sourceNames
      { prepare with names := prepare.names ++ [name], sourceToPrepared := sourceToPrepared, updates := updates }
      (slots ++ [slot]) where
  status := holds.status
  names := by rw [holds.names, List.map_append, List.map_singleton, isName]
  room := room
  table := table

/-- A visit that does not fail numbers the parameter among the slots. -/
theorem HoldsSlots.visit {prepare : BindPrepare} {slots : List Nat} (holds : HoldsSlots sourceNames prepare slots)
    (param : Nat) (succeeds : (bindPrepareVisit strdup sourceNames numbers prepare param).status = .ok) :
    (∃ name, sourceName sourceNames (numbers param) = some name) ∧
      HoldsSlots sourceNames (bindPrepareVisit strdup sourceNames numbers prepare param)
        (number 0 slots (bindRequest sourceNames numbers param)).1 ∧
      (bindPrepareVisit strdup sourceNames numbers prepare param).updates =
        prepare.updates ++ [(param, (number 0 slots (bindRequest sourceNames numbers param)).2)] := by
  have length : prepare.names.length = slots.length := by rw [holds.names, List.length_map]
  have running : ¬ prepare.status ≠ .ok := not_not.mpr holds.status
  cases found : sourceName sourceNames (numbers param) with
  | none =>
    rw [bindPrepareVisit, if_neg running, found] at succeeds
    cases succeeds
  | some name =>
    refine ⟨⟨name, rfl⟩, ?_⟩
    have bounds := sourceName_bounds found
    rw [bindPrepareVisit, if_neg running, found] at succeeds ⊢
    dsimp only at succeeds ⊢
    by_cases unnamed : name = ascii "?"
    · -- The name `?` is copied for every parameter that has it.
      have request : bindRequest sourceNames numbers param = none := by rw [bindRequest, found, unnamed, if_pos rfl]
      simp only [unnamed, ne_eq, not_true_eq_false, if_false, if_true] at succeeds ⊢
      have unnamedSlot : slotName sourceNames 0 = ascii "?" := rfl
      rw [request]
      split at succeeds
      next given =>
        rw [if_pos given]
        refine ⟨holds.append unnamedSlot holds.room fun number positive bound => ?_, by rw [length]; rfl⟩
        rw [holds.table number positive bound, List.findIdx?_append, List.findIdx?_singleton,
          if_neg (by simpa using positive.ne)]
        cases slots.findIdx? (· = number) <;> rfl
      next => cases succeeds
    · have request : bindRequest sourceNames numbers param = some (numbers param).toNat := by
        rw [bindRequest, found, if_neg fun same => unnamed (Option.some.inj same)]
      have entry := holds.table (numbers param).toNat (by omega) (by omega)
      simp only [unnamed, ne_eq, not_false_eq_true, if_true] at succeeds ⊢
      rw [request, number, numberName]
      cases slot : slots.findIdx? (· = (numbers param).toNat) with
      | some index =>
        rw [slot] at entry
        have used : prepare.sourceToPrepared.getD (numbers param).toNat 0 = index + 1 := entry
        rw [if_neg (by omega)]
        exact ⟨⟨holds.status, holds.names, holds.room, holds.table⟩, by rw [used]⟩
      | none =>
        rw [slot] at entry
        have unused : prepare.sourceToPrepared.getD (numbers param).toNat 0 = 0 := entry
        rw [if_pos unused] at succeeds ⊢
        split at succeeds
        next given =>
          rw [if_pos given]
          refine ⟨holds.append ?_ (by rw [List.length_set, holds.room]) fun number positive bound => ?_, by rw [length]⟩
          · rw [slotName, if_neg (by omega), sourceName_toNat found]
            rfl
          · rw [List.findIdx?_append, List.findIdx?_singleton, List.getD_eq_getElem?_getD, List.getElem?_set]
            by_cases same : (numbers param).toNat = number
            · subst same
              rw [if_pos rfl, if_pos (by rw [holds.room]; omega), slot, length]
              simp
            · rw [if_neg same, ← List.getD_eq_getElem?_getD, holds.table number positive bound]
              rw [if_neg (by simpa using same)]
              cases slots.findIdx? (· = number) <;> rfl
        next => cases succeeds

/-! ## The run over the parameters -/

theorem bindPrepareVisit_foldl_failed {prepare : BindPrepare} (failed : prepare.status ≠ .ok) (params : List Nat) :
    params.foldl (bindPrepareVisit strdup sourceNames numbers) prepare = prepare := by
  induction params with
  | nil => rfl
  | cons param params inductionHypothesis => rw [List.foldl_cons, bindPrepareVisit_failed failed, inductionHypothesis]

/-- A run that does not fail numbers all parameters. -/
theorem HoldsSlots.run {prepare : BindPrepare} {slots : List Nat} (holds : HoldsSlots sourceNames prepare slots)
    (params : List Nat) (succeeds : (params.foldl (bindPrepareVisit strdup sourceNames numbers) prepare).status = .ok) :
    (∀ param ∈ params, ∃ name, sourceName sourceNames (numbers param) = some name) ∧
      HoldsSlots sourceNames (params.foldl (bindPrepareVisit strdup sourceNames numbers) prepare)
        (listed 0 slots (params.map (bindRequest sourceNames numbers))) ∧
      (params.foldl (bindPrepareVisit strdup sourceNames numbers) prepare).updates =
        prepare.updates ++ params.zip (SqlParser.Library.Numbering.numbers 0 slots (params.map (bindRequest sourceNames numbers))) := by
  induction params generalizing prepare slots with
  | nil => exact ⟨by simp, holds, (List.append_nil _).symm⟩
  | cons param params inductionHypothesis =>
    rw [List.foldl_cons] at succeeds ⊢
    have first : (bindPrepareVisit strdup sourceNames numbers prepare param).status = .ok := by
      by_contra failed
      rw [bindPrepareVisit_foldl_failed failed] at succeeds
      exact failed succeeds
    obtain ⟨named, next, updates⟩ := holds.visit param first
    obtain ⟨others, final, finalUpdates⟩ := inductionHypothesis next succeeds
    refine ⟨?_, final, ?_⟩
    · intro other member
      cases member with
      | head => exact named
      | tail _ member => exact others other member
    · rw [finalUpdates, updates, List.append_assoc]
      rfl

theorem bindPrepareVisit_names (prepare : BindPrepare) (param : Nat) :
    (bindPrepareVisit strdup sourceNames numbers prepare param).names.length ≤ prepare.names.length + 1 := by
  rw [bindPrepareVisit]
  split
  next => exact Nat.le_succ _
  next =>
    split
    next => exact Nat.le_succ _
    next =>
      dsimp only
      split_ifs <;> simp

/-- Each visit copies one name at most. -/
theorem bindPrepareVisits_names (params : List Nat) :
    (bindPrepareVisits strdup sourceNames numbers params).names.length ≤ params.length := by
  have run (prepare : BindPrepare) : (params.foldl (bindPrepareVisit strdup sourceNames numbers) prepare).names.length ≤
      prepare.names.length + params.length := by
    induction params generalizing prepare with
    | nil => exact le_rfl
    | cons param params inductionHypothesis =>
      have first := @bindPrepareVisit_names strdup sourceNames numbers prepare param
      have others := inductionHypothesis (bindPrepareVisit strdup sourceNames numbers prepare param)
      rw [List.foldl_cons, List.length_cons]
      omega
  exact (run _).trans (Nat.le_of_eq (Nat.zero_add _))

end Visit

/-! ## The updates -/

theorem applyBindUpdates_of_not_mem {numbers : Nat → Int} {updates : List (Nat × Nat)} {node : Nat}
    (missing : node ∉ updates.map Prod.fst) : applyBindUpdates numbers updates node = numbers node := by
  induction updates generalizing numbers with
  | nil => rfl
  | cons update updates inductionHypothesis =>
    rw [List.map_cons, List.mem_cons, not_or] at missing
    rw [applyBindUpdates, List.foldl_cons]
    exact (inductionHypothesis missing.2).trans (Function.update_of_ne missing.1 _ _)

/-- A node that is updated once has the number of its update. -/
theorem applyBindUpdates_of_mem {numbers : Nat → Int} {updates : List (Nat × Nat)} {node given : Nat}
    (distinct : (updates.map Prod.fst).Nodup) (member : (node, given) ∈ updates) :
    applyBindUpdates numbers updates node = given := by
  induction updates generalizing numbers with
  | nil => cases member
  | cons update updates inductionHypothesis =>
    rw [List.map_cons, List.nodup_cons] at distinct
    rw [applyBindUpdates, List.foldl_cons]
    cases member with
    | head => exact (applyBindUpdates_of_not_mem distinct.1).trans (Function.update_self _ _ _)
    | tail _ member => exact inductionHypothesis distinct.2 member

/-! ## The prepared binds -/

/-- The parameters have numbers in a list of names that denote what they denoted before. -/
structure BindsPrepared (sourceNames : List (Option Text)) (params : List Nat) (numbers renumbered : Nat → Int)
    (prepared : PreparedBinds) : Prop where
  names : ∀ param ∈ params, ∃ name, sourceName sourceNames (numbers param) = some name ∧
    sourceName (prepared.names.map some) (renumbered param) = some name
  used : ∀ number : Nat, (0 < number ∧ number ≤ prepared.names.length) ↔ ∃ param ∈ params, renumbered param = number
  shared : params.Pairwise fun earlier later => renumbered earlier = renumbered later ↔
    numbers earlier = numbers later ∧ sourceName sourceNames (numbers later) ≠ some (ascii "?")
  fresh : params.Pairwise fun earlier later =>
    sourceName sourceNames (numbers later) = some (ascii "?") → renumbered earlier < renumbered later
  others : ∀ node, node ∉ params → renumbered node = numbers node
  capacity : prepared.names.length ≤ prepared.capacity

section Prepared

variable {sourceNames : List (Option Text)} {numbers : Nat → Int} {params : List Nat}

theorem bindRequest_getD {param : Nat} {name : Text} (found : sourceName sourceNames (numbers param) = some name) :
    slotName sourceNames ((bindRequest sourceNames numbers param).getD 0) = name := by
  have bounds := sourceName_bounds found
  rw [bindRequest, found]
  split_ifs with unnamed
  · exact (Option.some.inj unnamed).symm
  · rw [Option.getD_some, slotName, if_neg (by omega), sourceName_toNat found, Option.getD_some]

theorem bindRequest_eq_none_iff {param : Nat} :
    bindRequest sourceNames numbers param = none ↔ sourceName sourceNames (numbers param) = some (ascii "?") := by
  rw [bindRequest]
  split_ifs with unnamed <;> simp [unnamed]

theorem bindRequest_eq_iff {first second : Nat} {name other : Text}
    (found : sourceName sourceNames (numbers first) = some name) (there : sourceName sourceNames (numbers second) = some other) :
    (bindRequest sourceNames numbers first ≠ none ∧
        bindRequest sourceNames numbers first = bindRequest sourceNames numbers second) ↔
      numbers first = numbers second ∧ sourceName sourceNames (numbers second) ≠ some (ascii "?") := by
  have bounds := sourceName_bounds found
  have otherBounds := sourceName_bounds there
  rw [ne_eq, bindRequest_eq_none_iff]
  constructor
  · rintro ⟨named, same⟩
    rw [bindRequest, bindRequest, if_neg named] at same
    split_ifs at same with unnamed
    exact ⟨by have := Option.some.inj same; omega, unnamed⟩
  · rintro ⟨same, named⟩
    exact ⟨same ▸ named, by rw [bindRequest, bindRequest, same]⟩

theorem map_eq_of_zip {α β : Type} {f : α → β} {items : List α} {images : List β} (length : images.length = items.length)
    (each : ∀ pair ∈ items.zip images, f pair.1 = pair.2) : items.map f = images := by
  induction items generalizing images with
  | nil => exact (List.eq_nil_of_length_eq_zero length).symm
  | cons item items inductionHypothesis =>
    cases images with
    | nil => cases length
    | cons image images =>
      rw [List.zip_cons_cons] at each
      rw [List.map_cons, each (item, image) List.mem_cons_self,
        inductionHypothesis (Nat.succ.inj length) fun pair member => each pair (List.mem_cons_of_mem _ member)]

/-- A number that is listed has its name in the table of the listed names. -/
theorem sourceName_listed {names : List Text} {number : Nat} {name : Text} (positive : 0 < number)
    (found : names[number - 1]? = some name) : sourceName (names.map some) number = some name := by
  obtain ⟨bound, -⟩ := List.getElem?_eq_some_iff.mp found
  rw [sourceName, if_neg (by rw [List.length_map]; omega), Int.toNat_natCast, List.getElem?_map, found]
  rfl

/-- What the slots and the numbers of a run say about the parameters. -/
theorem bindsPrepared_of_numbers {renumbered : Nat → Int} {prepared : PreparedBinds}
    (found : ∀ param ∈ params, ∃ name, sourceName sourceNames (numbers param) = some name)
    (names : prepared.names = (listed 0 [] (params.map (bindRequest sourceNames numbers))).map (slotName sourceNames))
    (given : ∀ pair ∈ params.zip (SqlParser.Library.Numbering.numbers 0 [] (params.map (bindRequest sourceNames numbers))),
      renumbered pair.1 = pair.2)
    (others : ∀ node, node ∉ params → renumbered node = numbers node) (capacity : prepared.names.length ≤ prepared.capacity) :
    BindsPrepared sourceNames params numbers renumbered prepared := by
  have length := numbers_length 0 [] (params.map (bindRequest sourceNames numbers))
  rw [List.length_map] at length
  have images : (params.map fun param => (renumbered param).toNat) =
      SqlParser.Library.Numbering.numbers 0 [] (params.map (bindRequest sourceNames numbers)) :=
    map_eq_of_zip length fun pair member => by rw [given pair member, Int.toNat_natCast]
  -- no parameter keeps a negative number, so the two spellings of a number agree
  have natural : ∀ param ∈ params, renumbered param = ((renumbered param).toNat : Nat) := by
    intro param member
    obtain ⟨index, bound, rfl⟩ := List.getElem_of_mem member
    have inside : index < (params.zip (SqlParser.Library.Numbering.numbers 0 []
        (params.map (bindRequest sourceNames numbers)))).length := by
      rw [List.length_zip, length, Nat.min_self]
      exact bound
    have pair := given _ (List.getElem_mem inside)
    rw [List.getElem_zip] at pair
    dsimp only at pair
    omega
  have pairs : (params.map (bindRequest sourceNames numbers)).zip
      (SqlParser.Library.Numbering.numbers 0 [] (params.map (bindRequest sourceNames numbers))) =
        params.map fun param => (bindRequest sourceNames numbers param, (renumbered param).toNat) := by
    rw [← images, List.zip_map']
  have each : ∀ param ∈ params, 0 < (renumbered param).toNat ∧
      (listed 0 [] (params.map (bindRequest sourceNames numbers)))[(renumbered param).toNat - 1]? =
        some ((bindRequest sourceNames numbers param).getD 0) := by
    intro param member
    have numbered := listed_numbers 0 [] (params.map (bindRequest sourceNames numbers))
    rw [pairs] at numbered
    exact numbered _ (List.mem_map_of_mem member)
  -- zero stands for an unnamed slot and is no parameter's request
  have apart : some 0 ∉ params.map (bindRequest sourceNames numbers) := by
    intro member
    obtain ⟨param, listed, zero⟩ := List.mem_map.mp member
    obtain ⟨name, named⟩ := found param listed
    have bounds := sourceName_bounds named
    rw [bindRequest] at zero
    split_ifs at zero
    have := Option.some.inj zero
    omega
  -- names kept, every slot used, one slot for each named number, unnamed slots behind all earlier ones
  refine ⟨?_, ?_, ?_, ?_, others, capacity⟩
  · intro param member
    obtain ⟨name, named⟩ := found param member
    obtain ⟨positive, slot⟩ := each param member
    refine ⟨name, named, ?_⟩
    rw [natural param member]
    apply sourceName_listed positive
    rw [names, List.getElem?_map, slot, Option.map_some, bindRequest_getD named]
  · intro number
    rw [names, List.length_map]
    constructor
    · rintro ⟨positive, bound⟩
      have covered := numbers_cover positive bound
      rw [← images] at covered
      obtain ⟨param, member, rfl⟩ := List.mem_map.mp covered
      exact ⟨param, member, natural param member⟩
    · rintro ⟨param, member, isNumber⟩
      obtain ⟨positive, slot⟩ := each param member
      obtain ⟨bound, -⟩ := List.getElem?_eq_some_iff.mp slot
      omega
  · have pairwise := numbers_pairwise 0 [] _ apart
    rw [pairs, List.pairwise_map] at pairwise
    refine pairwise.imp_of_mem fun {earlier later} earlierListed laterListed same => ?_
    obtain ⟨name, named⟩ := found earlier earlierListed
    obtain ⟨other, otherNamed⟩ := found later laterListed
    rw [← bindRequest_eq_iff named otherNamed, ← same]
    have := natural earlier earlierListed
    have := natural later laterListed
    constructor <;> intro equal <;> dsimp only at * <;> omega
  · have pairwise := numbers_unnamed_later 0 [] (params.map (bindRequest sourceNames numbers))
    rw [pairs, List.pairwise_map] at pairwise
    refine pairwise.imp_of_mem fun {earlier later} earlierListed laterListed order unnamed => ?_
    have less := order (bindRequest_eq_none_iff.mpr unnamed)
    have := natural earlier earlierListed
    have := natural later laterListed
    dsimp only at less
    omega

end Prepared

theorem prepareBinds_error {memory : BindMemory} {names : List (Option Text)} {ast : ParseResult} {numbers : Nat → Int}
    {error : Error} (failed : (prepareBinds memory names (some ast) {} numbers).1 = .error error) :
    (prepareBinds memory names (some ast) {} numbers).2 = ({}, numbers) := by
  simp only [prepareBinds] at failed ⊢
  split_ifs at failed ⊢ <;> rfl

theorem prepareBinds_ok {memory : BindMemory} {names : List (Option Text)} {ast : ParseResult} {numbers : Nat → Int}
    (nonempty : names ≠ []) (succeeds : (prepareBinds memory names (some ast) {} numbers).1 = .ok ()) :
    (bindPrepareVisits memory.strdup names numbers (paramRefs (surfaceVisit ast))).status = .ok ∧
      (prepareBinds memory names (some ast) {} numbers).2 =
        (⟨(bindPrepareVisits memory.strdup names numbers (paramRefs (surfaceVisit ast))).names,
            (paramRefs (surfaceVisit ast)).length, (paramRefs (surfaceVisit ast)).length, true⟩,
          applyBindUpdates numbers
            (bindPrepareVisits memory.strdup names numbers (paramRefs (surfaceVisit ast))).updates) := by
  simp only [prepareBinds] at succeeds ⊢
  rw [if_neg Bool.false_ne_true, if_neg nonempty] at succeeds ⊢
  split_ifs at succeeds ⊢ with bounds arrays copies visits
  · simp only [not_or, not_not] at bounds visits
    rw [min_eq_left (by omega)]
    exact ⟨visits.1, rfl⟩

/-- On a state that is not prepared, a preparation that succeeds renumbers the parameters, unless there are no names at
all, and one that fails changes nothing.  Either way the reconciled table keeps the name of every parameter. -/
theorem prepared_binds_denote (memory : BindMemory) (names : List (Option Text)) (ast : Ast) (numbers : Nat → Int) :
    (names ≠ [] → (prepareBinds memory names (some ast.result) {} numbers).1 = .ok () →
      BindsPrepared names (paramRefs (surfaceVisit ast.result)) numbers
        (prepareBinds memory names (some ast.result) {} numbers).2.2
        (prepareBinds memory names (some ast.result) {} numbers).2.1) ∧
    (names = [] → prepareBinds memory names (some ast.result) {} numbers = (.ok (), {}, numbers)) ∧
    (∀ error, (prepareBinds memory names (some ast.result) {} numbers).1 = .error error →
      (prepareBinds memory names (some ast.result) {} numbers).2 = ({}, numbers)) ∧
    (∀ table : BindTable, table.names = names → ∀ param ∈ paramRefs (surfaceVisit ast.result),
      sourceName (reconcileBinds (prepareBinds memory names (some ast.result) {} numbers).2.1 table).2.names
          ((prepareBinds memory names (some ast.result) {} numbers).2.2 param) =
        sourceName names (numbers param)) ∧
    ∀ visited, visited <+: paramRefs (surfaceVisit ast.result) →
      (bindPrepareVisits memory.strdup names numbers visited).names.length ≤ (paramRefs (surfaceVisit ast.result)).length := by
  have distinct := ast.paramRefs_nodup
  have prepares : names ≠ [] → (prepareBinds memory names (some ast.result) {} numbers).1 = .ok () →
      BindsPrepared names (paramRefs (surfaceVisit ast.result)) numbers
        (prepareBinds memory names (some ast.result) {} numbers).2.2
        (prepareBinds memory names (some ast.result) {} numbers).2.1 := by
    intro nonempty succeeds
    obtain ⟨status, outcome⟩ := prepareBinds_ok nonempty succeeds
    obtain ⟨found, holds, updates⟩ := (holdsSlots_start names).run (paramRefs (surfaceVisit ast.result)) status
    have length := numbers_length 0 [] ((paramRefs (surfaceVisit ast.result)).map (bindRequest names numbers))
    rw [List.length_map] at length
    have fronts : (List.map Prod.fst (bindPrepareVisits memory.strdup names numbers
        (paramRefs (surfaceVisit ast.result))).updates) = paramRefs (surfaceVisit ast.result) := by
      rw [bindPrepareVisits, updates, List.nil_append, List.map_fst_zip length.ge]
    rw [outcome]
    apply bindsPrepared_of_numbers found holds.names
    · intro pair member
      apply applyBindUpdates_of_mem (by rw [fronts]; exact distinct)
      rw [bindPrepareVisits, updates]
      exact member
    · intro node missing
      exact applyBindUpdates_of_not_mem (by rwa [fronts])
    · exact bindPrepareVisits_names _
  have unnamed : names = [] → prepareBinds memory names (some ast.result) {} numbers = (.ok (), {}, numbers) := by
    rintro rfl
    rfl
  refine ⟨prepares, unnamed, fun error failed => prepareBinds_error failed, ?_, ?_⟩
  · intro table isTable param member
    have kept : (prepareBinds memory names (some ast.result) {} numbers).2 = ({}, numbers) →
        sourceName (reconcileBinds (prepareBinds memory names (some ast.result) {} numbers).2.1 table).2.names
          ((prepareBinds memory names (some ast.result) {} numbers).2.2 param) = sourceName names (numbers param) := by
      intro same
      rw [same, reconcileBinds, if_neg Bool.false_ne_true, isTable]
    by_cases nonempty : names = []
    · exact kept (by rw [unnamed nonempty])
    · cases outcome : (prepareBinds memory names (some ast.result) {} numbers).1 with
      | error error => exact kept (prepareBinds_error outcome)
      | ok =>
        obtain ⟨name, old, new⟩ := (prepares nonempty outcome).names param member
        have valid : (prepareBinds memory names (some ast.result) {} numbers).2.1.valid = true := by
          rw [(prepareBinds_ok nonempty outcome).2]
        rw [reconcileBinds, if_pos valid, new, old]
  · intro visited isPrefix
    exact (bindPrepareVisits_names visited).trans isPrefix.length_le

/-- `SELECT $1` -/
def selectParam : Ast where
  result := ⟨1, [⟨2, some (.node 3 (.selectStmt .none .default) (.cons .targetList (.node 4 .paramRef .nil) .nil))⟩]⟩
  live := ⟨by decide, by decide⟩

theorem selectParam_params : paramRefs (surfaceVisit selectParam.result) = [4] := by
  simp [selectParam, surfaceVisit, visitMessage, visitFields, Event.paramRefNode]

/-- `SELECT $2, $3, $2, $1, $3` -/
def repeatedParams : Ast where
  result := ⟨1, [⟨2, some (.node 3 (.selectStmt .none .default)
    (.cons .targetList (.node 4 .paramRef .nil) (.cons .targetList (.node 5 .paramRef .nil)
      (.cons .targetList (.node 6 .paramRef .nil) (.cons .targetList (.node 7 .paramRef .nil)
        (.cons .targetList (.node 8 .paramRef .nil) .nil))))))⟩]⟩
  live := ⟨by decide, by decide⟩

def repeatedNumber : Nat → Int
  | 4 => 2
  | 5 => 3
  | 6 => 2
  | 7 => 1
  | _ => 3

theorem repeatedParams_params : paramRefs (surfaceVisit repeatedParams.result) = [4, 5, 6, 7, 8] := by
  simp [repeatedParams, surfaceVisit, visitMessage, visitFields, Event.paramRefNode]

def repeatedNames : List (Option Text) :=
  [some (ascii "a"), some (ascii "b"), some (ascii "?")]

theorem repeatedParams_prepared :
    (prepareBinds ⟨true, true, true, fun _ => true⟩ repeatedNames (some repeatedParams.result) {} repeatedNumber).1 = .ok () ∧
      [4, 5, 6, 7, 8].map (prepareBinds ⟨true, true, true, fun _ => true⟩ repeatedNames (some repeatedParams.result) {}
        repeatedNumber).2.2 = [1, 2, 1, 3, 4] ∧
      (prepareBinds ⟨true, true, true, fun _ => true⟩ repeatedNames (some repeatedParams.result) {} repeatedNumber).2.1.names =
        [ascii "b", ascii "?", ascii "a", ascii "?"] := by
  simp only [prepareBinds, repeatedParams_params]
  decide +kernel

/-- The second parameter is used first and twice, and the question mark gets a number for each of its uses. -/
theorem prepared_binds_denote_select :
    BindsPrepared repeatedNames (paramRefs (surfaceVisit repeatedParams.result)) repeatedNumber
        (prepareBinds ⟨true, true, true, fun _ => true⟩ repeatedNames (some repeatedParams.result) {} repeatedNumber).2.2
        (prepareBinds ⟨true, true, true, fun _ => true⟩ repeatedNames (some repeatedParams.result) {} repeatedNumber).2.1 ∧
      [4, 5, 6, 7, 8].map (prepareBinds ⟨true, true, true, fun _ => true⟩ repeatedNames (some repeatedParams.result) {}
        repeatedNumber).2.2 = [1, 2, 1, 3, 4] ∧
      (prepareBinds ⟨true, true, true, fun _ => true⟩ repeatedNames (some repeatedParams.result) {} repeatedNumber).2.1.names =
        [ascii "b", ascii "?", ascii "a", ascii "?"] :=
  ⟨(prepared_binds_denote ⟨true, true, true, fun _ => true⟩ repeatedNames repeatedParams repeatedNumber).1
    (List.cons_ne_nil _ _) repeatedParams_prepared.1, repeatedParams_prepared.2⟩

/-- Without names a parameter of any number is accepted and keeps its number. -/
theorem prepared_binds_unnamed :
    (prepareBinds ⟨true, true, true, fun _ => true⟩ [] (some selectParam.result) {} fun _ => 5).1 = .ok () ∧
      ¬ ∀ number : Nat,
        (0 < number ∧ number ≤ (prepareBinds ⟨true, true, true, fun _ => true⟩ [] (some selectParam.result) {}
          fun _ => 5).2.1.names.length) ↔
        ∃ param ∈ paramRefs (surfaceVisit selectParam.result),
          (prepareBinds ⟨true, true, true, fun _ => true⟩ [] (some selectParam.result) {} fun _ => 5).2.2 param = number := by
  refine ⟨rfl, fun used => ?_⟩
  obtain ⟨-, bound⟩ := (used 5).mpr ⟨4, by simp [selectParam_params], rfl⟩
  exact absurd bound (by decide)

end SqlParser.Core
