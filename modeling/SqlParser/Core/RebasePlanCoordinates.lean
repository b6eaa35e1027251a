import SqlParser.Core.RebasePlan

/-! # The coordinates of a rebase plan

The coordinates of a tree are its locations and the spans of its statements. A walk that succeeds
has an image for each of them and writes those that move, in the order of the walk.
-/

namespace SqlParser.Core

open SqlParser.Protobuf
open SqlParser.Library.Splice

/-! ## Coordinates of a tree -/

inductive Coordinate where
  | location (slot : Nat) (location : Int)
  /-- The length of a statement that stands at a location. -/
  | length (slot : Nat) (location length : Int)
  deriving DecidableEq, Repr

def Coordinate.slot : Coordinate → Nat
  | .location slot _ => slot
  | .length slot _ _ => slot

def Coordinate.value : Coordinate → Int
  | .location _ point => point
  | .length _ _ extent => extent

/-- The value of a coordinate behind the edits: no location and no length stay what they are. -/
def Coordinate.rebased (image : Nat → Option Int) : Coordinate → Option Int
  | .location _ point => if point < 0 then some point else image point.toNat
  | .length _ point extent =>
    if extent = 0 then some 0
    else
      match image point.toNat, image (point.toNat + extent.toNat) with
      | some start, some stop => some (stop - start)
      | _, _ => none

/-- The write of a coordinate that moves. -/
def Coordinate.write (image : Nat → Option Int) (coordinate : Coordinate) : Option (Nat × Int) :=
  (coordinate.rebased image).bind fun new =>
    if coordinate.value = new then none else some (coordinate.slot, new)

def spanCoordinates (type : MessageType) (fields : Fields) : List Coordinate :=
  if isStatement type then
    match statementSpan fields with
    | some span => [.location span.locationSlot span.location, .length span.lengthSlot span.location span.length]
    | none => []
  else []

/-- The source location that a field is. -/
def fieldCoordinates (field : FieldDescriptor) : Value → List Coordinate
  | .int32 slot location => if field.type = .int32 ∧ isLocationName field.name then [.location slot location] else []
  | _ => []

def locationCoordinates (type : MessageType) (quantifier : Nat → Nat) (all : Fields) : Fields → List Coordinate
  | .nil => []
  | .cons field value rest =>
    (if walksField type quantifier field ∧ rebaseFieldActive quantifier all field = some true then
      fieldCoordinates field value else []) ++ locationCoordinates type quantifier all rest

mutual

/-- The coordinates of a message and of what hangs under it. -/
def messageCoordinates : Protobuf.Message → List Coordinate
  | .mk type _ quantifier fields =>
    spanCoordinates type fields ++ locationCoordinates type quantifier fields fields ++
      childCoordinates type quantifier fields fields

def childCoordinates (type : MessageType) (quantifier : Nat → Nat) (all : Fields) : Fields → List Coordinate
  | .nil => []
  | .cons field value rest =>
    (if (field.type = .message ∧ walksField type quantifier field) ∧ rebaseFieldActive quantifier all field = some true then
      valueCoordinates value else []) ++ childCoordinates type quantifier all rest

def valueCoordinates : Value → List Coordinate
  | .child message => messageCoordinates message
  | .items messages => itemCoordinates messages
  | _ => []

def itemCoordinates : Messages → List Coordinate
  | .nil => []
  | .null rest => itemCoordinates rest
  | .cons message rest => messageCoordinates message ++ itemCoordinates rest

end

/-! ## What a part of the walk collects -/

section Collects

variable {σ : Type} {edits : List SourceEdit} {oldLength newLength : Nat}

/-- The context reads these edits through a cursor that is right. -/
structure RebaseContext.Reads (edits : List SourceEdit) (oldLength newLength : Nat) (context : RebaseContext) : Prop where
  edits : context.edits = edits
  oldLength : context.oldLength = oldLength
  newLength : context.newLength = newLength
  cursor : context.Cursor

/-- Between two states the walk has taken the coordinates: each has an image, and those that move are
written. -/
structure RebaseState.Collects (edits : List SourceEdit) (oldLength newLength : Nat) (before after : RebaseState σ)
    (coordinates : List Coordinate) : Prop where
  reads : after.context.Reads edits oldLength newLength
  images : ∀ coordinate ∈ coordinates, (coordinate.rebased (rebasedPoint edits oldLength)).isSome
  writes : after.writes = before.writes ++ coordinates.filterMap (Coordinate.write (rebasedPoint edits oldLength))

theorem RebaseState.Collects.nil {before after : RebaseState σ}
    (reads : after.context.Reads edits oldLength newLength) (writes : after.writes = before.writes) :
    before.Collects edits oldLength newLength after [] :=
  ⟨reads, fun _ member => absurd member List.not_mem_nil, by simpa using writes⟩

theorem RebaseState.Collects.append {first second third : RebaseState σ} {left right : List Coordinate}
    (before : first.Collects edits oldLength newLength second left)
    (after : second.Collects edits oldLength newLength third right) :
    first.Collects edits oldLength newLength third (left ++ right) := by
  apply RebaseState.Collects.mk after.reads
  · intro coordinate member
    cases List.mem_append.mp member with
    | inl member => exact before.images coordinate member
    | inr member => exact after.images coordinate member
  · rw [after.writes, before.writes, List.filterMap_append, List.append_assoc]

theorem point_reads {state after : RebaseState σ} {point : Nat} {mapped : Int}
    (certified : CertifiedEdits edits oldLength newLength) (reads : state.context.Reads edits oldLength newLength)
    (answer : state.point point = some (after, mapped)) :
    rebasedPoint edits oldLength point = some mapped ∧ after.context.Reads edits oldLength newLength ∧
      after.writes = state.writes := by
  obtain ⟨sameEdits, sameOld, sameNew, cursor⟩ := reads
  have certified : CertifiedEdits state.context.edits state.context.oldLength state.context.newLength := by
    rw [sameEdits, sameOld, sameNew]
    exact certified
  obtain ⟨image, count, delta, next, nextCursor⟩ := rebasePoint_spec certified cursor point
  rw [sameEdits, sameOld] at image
  unfold RebaseState.point at answer
  split at answer
  next context value found =>
    cases answer
    rw [found] at image next nextCursor
    dsimp only at next
    subst next
    exact ⟨image.symm, ⟨sameEdits, sameOld, sameNew, nextCursor⟩, rfl⟩
  next => cases answer

theorem record_writes {memory : Nat → Bool} {state after : RebaseState σ} {slot : Nat} {old new : Int}
    (recorded : state.record memory slot old new = some after) :
    after.context = state.context ∧ after.writes = state.writes ++ if old = new then [] else [(slot, new)] := by
  simp only [RebaseState.record] at recorded
  split_ifs at recorded with same <;> cases recorded
  · exact ⟨rfl, by rw [if_pos same, List.append_nil]⟩
  · exact ⟨rfl, by rw [if_neg same]⟩
  · exact ⟨rfl, by rw [if_neg same]⟩
  · exact ⟨rfl, by rw [if_neg same]⟩

/-- A record takes one coordinate whose image is known. -/
theorem record_collects {memory : Nat → Bool} {state after : RebaseState σ} (coordinate : Coordinate) {new : Int}
    (reads : state.context.Reads edits oldLength newLength)
    (image : coordinate.rebased (rebasedPoint edits oldLength) = some new)
    (recorded : state.record memory coordinate.slot coordinate.value new = some after) :
    state.Collects edits oldLength newLength after [coordinate] := by
  obtain ⟨sameContext, writes⟩ := record_writes recorded
  apply RebaseState.Collects.mk (sameContext ▸ reads)
  · intro other member
    rw [List.mem_singleton.mp member, image]
    rfl
  · have write : Coordinate.write (rebasedPoint edits oldLength) coordinate =
        if coordinate.value = new then none else some (coordinate.slot, new) := by
      rw [Coordinate.write, image, Option.bind_some]
    rw [writes, List.filterMap_cons, write, List.filterMap_nil]
    split <;> simp_all

theorem location_reads {state after : RebaseState σ} {location mapped : Int} (slot : Nat)
    (certified : CertifiedEdits edits oldLength newLength) (reads : state.context.Reads edits oldLength newLength)
    (answer : state.location location = some (after, mapped)) :
    (Coordinate.location slot location).rebased (rebasedPoint edits oldLength) = some mapped ∧
      after.context.Reads edits oldLength newLength ∧ after.writes = state.writes := by
  unfold RebaseState.location at answer
  rw [Coordinate.rebased]
  split at answer
  next real =>
    rw [if_neg (not_lt.mpr real)]
    exact point_reads certified reads answer
  next synthetic =>
    cases answer
    rw [if_pos (not_le.mp synthetic)]
    exact ⟨rfl, reads, rfl⟩

theorem length_reads {state after : RebaseState σ} {span : StatementSpan} {mappedLocation mapped : Int}
    (certified : CertifiedEdits edits oldLength newLength) (reads : state.context.Reads edits oldLength newLength)
    (proper : ¬ span.length < 0)
    (image : (Coordinate.location span.locationSlot span.location).rebased (rebasedPoint edits oldLength) =
      some mappedLocation)
    (answer : state.length span mappedLocation = some (after, mapped)) :
    (Coordinate.length span.lengthSlot span.location span.length).rebased (rebasedPoint edits oldLength) = some mapped ∧
      after.context.Reads edits oldLength newLength ∧ after.writes = state.writes := by
  unfold RebaseState.length at answer
  rw [Coordinate.rebased]
  split at answer
  next long =>
    split at answer
    next => cases answer
    next inside =>
      simp only [not_or, not_lt] at inside
      simp only [Option.bind_eq_bind, Option.bind_eq_some_iff, Prod.exists] at answer
      obtain ⟨next, mappedEnd, asked, answer⟩ := answer
      split at answer
      next => cases answer
      next =>
        cases answer
        obtain ⟨endImage, nextReads, nextWrites⟩ := point_reads certified reads asked
        rw [Coordinate.rebased, if_neg (not_lt.mpr inside.1)] at image
        rw [if_neg long.ne', image, endImage]
        exact ⟨rfl, nextReads, nextWrites⟩
  next short =>
    cases answer
    have empty : span.length = 0 := by omega
    rw [if_pos empty, empty]
    exact ⟨rfl, reads, rfl⟩

theorem rebaseStatement_collects {memory : Nat → Bool} {state after : RebaseState σ} {span : StatementSpan}
    (certified : CertifiedEdits edits oldLength newLength) (reads : state.context.Reads edits oldLength newLength)
    (moved : rebaseStatement memory state span = some after) :
    state.Collects edits oldLength newLength after
      [.location span.locationSlot span.location, .length span.lengthSlot span.location span.length] := by
  unfold rebaseStatement at moved
  split at moved
  next => cases moved
  next proper =>
    simp only [Option.bind_eq_bind, Option.bind_eq_some_iff, Prod.exists] at moved
    obtain ⟨located, mappedLocation, asked, measured, mappedLength, measure, first, recorded, recordedLength⟩ := moved
    obtain ⟨locationImage, locatedReads, locatedWrites⟩ :=
      location_reads span.locationSlot certified reads asked
    obtain ⟨lengthImage, measuredReads, measuredWrites⟩ :=
      length_reads certified locatedReads proper locationImage measure
    have measuredNothing : state.Collects edits oldLength newLength measured [] :=
      .nil measuredReads (measuredWrites.trans locatedWrites)
    have firstTakes : measured.Collects edits oldLength newLength first [.location span.locationSlot span.location] :=
      record_collects (.location _ _) measuredReads locationImage recorded
    have lastTakes : first.Collects edits oldLength newLength after
        [.length span.lengthSlot span.location span.length] :=
      record_collects (.length _ _ _) firstTakes.reads lengthImage recordedLength
    exact (measuredNothing.append firstTakes).append lastTakes

/-! ## The walk collects the coordinates of the tree -/

theorem image_zero (certified : CertifiedEdits edits oldLength newLength) : rebasedPoint edits oldLength 0 = some 0 := by
  rw [rebasedPoint_eq_some certified.proper (Nat.zero_le _) (by rintro ⟨edit, -, before, -⟩; omega)]
  rw [shift_eq_zero]
  · rfl
  · intro edit member
    obtain ⟨original, originalMember, rfl⟩ := List.mem_map.mp member
    have := certified.proper original originalMember
    simp only [spliceEdit_stop]
    omega

theorem rebaseCoordinate_collects {memory : Nat → Bool} {type : MessageType} {literalWrapper : Bool}
    {state after : RebaseState σ} {field : FieldDescriptor} {value : Value}
    (certified : CertifiedEdits edits oldLength newLength) (reads : state.context.Reads edits oldLength newLength)
    (moved : rebaseCoordinate memory type literalWrapper state field value = some after) :
    state.Collects edits oldLength newLength after (fieldCoordinates field value) := by
  unfold rebaseCoordinate at moved
  split at moved
  next statement =>
    have other : isLocationName field.name = false := by
      cases statement with
      | inl name => rw [name]; rfl
      | inr name => rw [name]; rfl
    split at moved
    next => cases moved
    next =>
      cases moved
      cases value <;> simp only [fieldCoordinates, other, Bool.false_eq_true, and_false, if_false] <;>
        exact .nil reads rfl
  next =>
    split at moved
    next location =>
      split at moved
      next path =>
        cases moved
        have text : field.type ≠ .int32 := by rw [path.2.1]; decide
        cases value <;> simp only [fieldCoordinates, text, false_and, if_false] <;> exact .nil reads rfl
      next =>
        split at moved
        next => cases moved
        next integer =>
          simp only [not_or, not_not] at integer
          cases value with
          | int32 slot point =>
            dsimp only at moved
            rw [fieldCoordinates, if_pos ⟨integer.1, location⟩]
            split at moved
            next kept =>
              cases moved
              have image : (Coordinate.location slot point).rebased (rebasedPoint edits oldLength) = some point := by
                rw [Coordinate.rebased]
                cases kept with
                | inl synthetic => rw [if_pos synthetic]
                | inr wrapper =>
                  rw [wrapper.2]
                  exact image_zero certified
              exact @record_collects _ _ _ _ (fun _ => true) _ _ _ _ reads image (if_pos rfl)
            next moves =>
              simp only [not_or, not_lt] at moves
              simp only [Option.bind_eq_bind, Option.bind_eq_some_iff, Prod.exists] at moved
              obtain ⟨next, mapped, asked, recorded⟩ := moved
              obtain ⟨image, nextReads, nextWrites⟩ := point_reads certified reads asked
              have unwritten : state.Collects edits oldLength newLength next [] := .nil nextReads nextWrites
              have taken : next.Collects edits oldLength newLength after [.location slot point] :=
                record_collects _ nextReads (by rw [Coordinate.rebased, if_neg (not_lt.mpr moves.1), image]) recorded
              exact unwritten.append taken
          | string | other | absent | child | items | missingItems => cases moved
    next other =>
      split at moved
      next => cases moved
      next =>
        cases moved
        cases value <;> simp only [fieldCoordinates, other, Bool.false_eq_true, and_false, if_false] <;>
          exact .nil reads rfl

theorem rebaseCoordinates_collects {memory : Nat → Bool} {type : MessageType} {quantifier : Nat → Nat} {all : Fields}
    {literalWrapper : Bool} {state after : RebaseState σ} (fields : Fields)
    (certified : CertifiedEdits edits oldLength newLength) (reads : state.context.Reads edits oldLength newLength)
    (moved : rebaseCoordinates memory type quantifier all literalWrapper state fields = some after) :
    state.Collects edits oldLength newLength after (locationCoordinates type quantifier all fields) := by
  cases fields with
  | nil =>
    cases moved
    exact .nil reads rfl
  | cons field value rest =>
    rw [rebaseCoordinates] at moved
    rw [locationCoordinates]
    split at moved
    next walked =>
      split at moved
      next => cases moved
      next inactive =>
        rw [if_neg (by simp [inactive])]
        exact rebaseCoordinates_collects rest certified reads moved
      next active =>
        rw [if_pos ⟨walked, active⟩]
        obtain ⟨next, here, behind⟩ := Option.bind_eq_some_iff.mp moved
        have taken := rebaseCoordinate_collects certified reads here
        exact taken.append (rebaseCoordinates_collects rest certified taken.reads behind)
    next skipped =>
      rw [if_neg (by simp [skipped])]
      exact rebaseCoordinates_collects rest certified reads moved

theorem rebaseSpan_collects {memory : Nat → Bool} {state after : RebaseState σ} {type : MessageType} {fields : Fields}
    (certified : CertifiedEdits edits oldLength newLength) (reads : state.context.Reads edits oldLength newLength)
    (moved : rebaseSpan memory state type fields = some after) :
    state.Collects edits oldLength newLength after (spanCoordinates type fields) := by
  unfold rebaseSpan at moved
  unfold spanCoordinates
  split at moved
  next statement =>
    obtain ⟨span, found, moved⟩ := Option.bind_eq_some_iff.mp moved
    rw [if_pos statement, found]
    exact rebaseStatement_collects certified reads moved
  next other =>
    cases moved
    rw [if_neg other]
    exact .nil reads rfl

theorem rebaseConstant_collects {calls : RebaseCalls σ} {state after : RebaseState σ} {message : Protobuf.Message}
    {owned underTypeName : Bool} (reads : state.context.Reads edits oldLength newLength)
    (shown : rebaseConstant calls state message owned underTypeName = some after) :
    state.Collects edits oldLength newLength after [] := by
  unfold rebaseConstant at shown
  split_ifs at shown
  · obtain ⟨literals, -, rfl⟩ := Option.map_eq_some_iff.mp shown
    exact .nil reads rfl
  · cases shown
    exact .nil reads rfl

mutual

theorem rebaseMessage_collects {calls : RebaseCalls σ} {state after : RebaseState σ} {owned : Bool} {depth : Nat}
    {literalWrapper underTypeName : Bool} (message : Protobuf.Message) (certified : CertifiedEdits edits oldLength newLength)
    (reads : state.context.Reads edits oldLength newLength)
    (moved : rebaseMessage calls state owned depth literalWrapper underTypeName message = some after) :
    state.Collects edits oldLength newLength after (messageCoordinates message) := by
  cases message with
  | mk type unknownFields quantifier fields =>
    simp only [rebaseMessage, Option.ite_none_right_eq_some, Option.bind_eq_some_iff] at moved
    obtain ⟨-, shown, constant, spanned, span, located, locations, children⟩ := moved
    have shownTakes := rebaseConstant_collects reads constant
    have spannedTakes := rebaseSpan_collects certified shownTakes.reads span
    have locatedTakes := rebaseCoordinates_collects fields certified spannedTakes.reads locations
    have childrenTake := rebaseChildren_collects fields certified locatedTakes.reads children
    rw [messageCoordinates]
    exact ((shownTakes.append spannedTakes).append locatedTakes).append childrenTake

theorem rebaseChildren_collects {calls : RebaseCalls σ} {type : MessageType} {quantifier : Nat → Nat} {all : Fields}
    {depth : Nat} {underTypeName : Bool} {state after : RebaseState σ} (fields : Fields)
    (certified : CertifiedEdits edits oldLength newLength) (reads : state.context.Reads edits oldLength newLength)
    (moved : rebaseChildren calls type quantifier all depth underTypeName state fields = some after) :
    state.Collects edits oldLength newLength after (childCoordinates type quantifier all fields) := by
  cases fields with
  | nil =>
    cases moved
    exact .nil reads rfl
  | cons field value rest =>
    rw [rebaseChildren] at moved
    rw [childCoordinates]
    split at moved
    next walked =>
      split at moved
      next => cases moved
      next inactive =>
        rw [if_neg (by simp [inactive])]
        exact rebaseChildren_collects rest certified reads moved
      next active =>
        rw [if_pos ⟨walked, active⟩]
        obtain ⟨next, here, behind⟩ := Option.bind_eq_some_iff.mp moved
        have taken := rebaseValue_collects value certified reads here
        exact taken.append (rebaseChildren_collects rest certified taken.reads behind)
    next skipped =>
      rw [if_neg (fun both => skipped both.1)]
      exact rebaseChildren_collects rest certified reads moved

theorem rebaseValue_collects {calls : RebaseCalls σ} {field : FieldDescriptor} {depth : Nat}
    {literalWrapper underTypeName : Bool} {state after : RebaseState σ} (value : Value)
    (certified : CertifiedEdits edits oldLength newLength) (reads : state.context.Reads edits oldLength newLength)
    (moved : rebaseValue calls field depth literalWrapper underTypeName state value = some after) :
    state.Collects edits oldLength newLength after (valueCoordinates value) := by
  cases value with
  | absent =>
    simp only [rebaseValue] at moved
    split_ifs at moved
    cases moved
    exact .nil reads rfl
  | child message =>
    simp only [rebaseValue, Option.ite_none_right_eq_some] at moved
    exact rebaseMessage_collects message certified reads moved.2
  | items messages => exact rebaseItems_collects messages certified reads moved
  | int32 | string | other | missingItems => cases moved

theorem rebaseItems_collects {calls : RebaseCalls σ} {field : FieldDescriptor} {depth : Nat}
    {literalWrapper underTypeName : Bool} {state after : RebaseState σ} (messages : Messages)
    (certified : CertifiedEdits edits oldLength newLength) (reads : state.context.Reads edits oldLength newLength)
    (moved : rebaseItems calls field depth literalWrapper underTypeName state messages = some after) :
    state.Collects edits oldLength newLength after (itemCoordinates messages) := by
  cases messages with
  | nil =>
    cases moved
    exact .nil reads rfl
  | null rest => cases moved
  | cons message rest =>
    simp only [rebaseItems, Option.ite_none_right_eq_some, Option.bind_eq_some_iff] at moved
    obtain ⟨-, next, here, behind⟩ := moved
    have taken := rebaseMessage_collects message certified reads here
    exact taken.append (rebaseItems_collects rest certified taken.reads behind)

end

end Collects

end SqlParser.Core
