import SqlParser.Core.ProtobufTree

/-! # The identifier-spelling store

The spellings of generated identifiers stand in groups of components. A location below every other
one encodes the group and the component; the groups to which no location leads are swept, and their
numbers are handed out again.
-/

namespace SqlParser.Core

open SqlParser.Protobuf

/-! ## Locations -/

/-- `SQLPARSER_PROTO_LOCATION_GENERATED` -/
def generatedLocation : Int := -2

/-- `SQLPARSER_PROTO_LOCATION_GENERATED_SPELLING_BASE` -/
def spellingBase : Int := -2147483648

/-- `SQLPARSER_PROTO_LOCATION_GENERATED_SPELLING_LAST` -/
def spellingLast : Int := -1610612737

/-- `SQLPARSER_PROTO_IDENTIFIER_SPELLING_COMPONENT_BITS` -/
def spellingComponentBits : Nat := 4

/-- `SQLPARSER_PROTO_IDENTIFIER_SPELLING_COMPONENT_MASK` -/
def spellingComponentMask : Nat := 15

/-- `SQLPARSER_PROTO_IDENTIFIER_SPELLING_COMPONENTS` -/
def spellingComponents : Nat := 16

/-- `SQLPARSER_PROTO_IDENTIFIER_SPELLING_GROUP_MAX` -/
def spellingGroupMax : Nat := 33554431

/-- `sqlparser_proto_location_is_identifier_spelling` -/
def isIdentifierSpelling (location : Int) : Bool :=
  location ≥ spellingBase && location ≤ spellingLast

def spellingPayload (location : Int) : Nat :=
  (location - spellingBase).toNat

def spellingGroup (location : Int) : Nat :=
  spellingPayload location >>> spellingComponentBits

def spellingComponent (location : Int) : Nat :=
  spellingPayload location &&& spellingComponentMask

/-- The location of a component; the payload is computed in `uint32_t`. -/
def spellingLocation (group component : Nat) : Int :=
  spellingBase + ((group <<< spellingComponentBits) % 2 ^ 32 ||| component : Nat)

theorem spellingPayload_location {group component : Nat} (groupBound : group ≤ spellingGroupMax)
    (componentBound : component < spellingComponents) :
    spellingPayload (spellingLocation group component) = group * 16 + component := by
  have small : group <<< spellingComponentBits < 2 ^ 32 := by
    rw [Nat.shiftLeft_eq]
    simp only [spellingGroupMax, spellingComponentBits] at *
    omega
  have payload : group <<< spellingComponentBits ||| component = group * 16 + component := by
    rw [← Nat.shiftLeft_add_eq_or_of_lt componentBound, Nat.shiftLeft_eq]
    rfl
  rw [spellingLocation, spellingPayload, Nat.mod_eq_of_lt small, payload]
  omega

/-- A group and a component can be read back from their location. -/
theorem spellingLocation_decode {group component : Nat} (groupBound : group ≤ spellingGroupMax)
    (componentBound : component < spellingComponents) :
    spellingGroup (spellingLocation group component) = group ∧
      spellingComponent (spellingLocation group component) = component := by
  have payload := spellingPayload_location groupBound componentBound
  rw [spellingGroup, spellingComponent, payload, spellingComponentBits, spellingComponentMask,
    Nat.shiftRight_eq_div_pow, show 15 = 2 ^ 4 - 1 from rfl, Nat.and_two_pow_sub_one_eq_mod]
  simp only [spellingComponents] at componentBound
  omega

theorem spellingLocation_range {group component : Nat} (groupBound : group ≤ spellingGroupMax)
    (componentBound : component < spellingComponents) :
    spellingBase ≤ spellingLocation group component ∧ spellingLocation group component ≤ spellingLast := by
  have payload := spellingPayload_location groupBound componentBound
  have lower : spellingBase ≤ spellingLocation group component := by
    rw [spellingLocation]
    omega
  rw [spellingPayload] at payload
  simp only [spellingBase, spellingLast, spellingGroupMax, spellingComponents] at *
  omega

theorem spellingLocation_isIdentifierSpelling {group component : Nat} (groupBound : group ≤ spellingGroupMax)
    (componentBound : component < spellingComponents) : isIdentifierSpelling (spellingLocation group component) = true := by
  have range := spellingLocation_range groupBound componentBound
  simpa [isIdentifierSpelling] using range

/-! ## The store -/

/-- `sqlparser_identifier_spelling_t`; the number of parts is the length of the list. -/
structure IdentifierSpelling where
  parts : List Text
  aliasStyle : Nat
  deriving DecidableEq, Repr

/-- The group behind `memset`. -/
def IdentifierSpelling.empty : IdentifierSpelling := ⟨[], 0⟩

def sizeofIdentifierSpelling : Nat := 136

/-- The members of the handle that keep the spellings; no group is built where `buildGroup` is
`SIZE_MAX`. -/
structure SpellingStore where
  groups : List IdentifierSpelling
  capacity : Nat
  freeGroup : Nat
  buildGroup : Option Nat
  lastLocation : Int
  status : Status
  deriving DecidableEq, Repr

def SpellingStore.initial : SpellingStore := ⟨[], 0, 0, none, generatedLocation, .ok⟩

/-- What the allocations of a call answer. -/
structure SpellingMemory where
  calloc : Bool
  realloc : Bool
  strndup : Bool
  deriving DecidableEq, Repr

/-- `sqlparser_handle_begin_identifier_spelling` -/
def SpellingStore.begin (store : SpellingStore) : SpellingStore :=
  { store with buildGroup := none, lastLocation := generatedLocation }

/-- The first group without a part from an index on, or the number of groups. -/
def firstEmptyGroup (groups : List IdentifierSpelling) (start : Nat) : Nat :=
  start + ((groups.drop start).takeWhile fun group => group.parts ≠ []).length

/-- The capacity that holds one more group. -/
def SpellingStore.grow (memory : SpellingMemory) (store : SpellingStore) : Option Nat :=
  if store.groups.length = store.capacity then
    let capacity := if store.capacity = 0 then 8 else (store.capacity * 2) % 2 ^ 64
    if capacity < store.capacity ∨ capacity > spellingGroupMax + 1 ∨ capacity > sizeMax / sizeofIdentifierSpelling ∨
        !memory.realloc then none
    else some capacity
  else some store.capacity

/-- The part of `sqlparser_handle_append_identifier_spelling` that opens a group. -/
def SpellingStore.openGroup (memory : SpellingMemory) (store : SpellingStore) : Except Status (SpellingStore × Nat) :=
  match store.buildGroup with
  | some group => .ok (store, group)
  | none =>
    let index := firstEmptyGroup store.groups (if store.freeGroup ≤ store.groups.length then store.freeGroup else 0)
    if index < store.groups.length then
      .ok ({ store with groups := store.groups.set index .empty, buildGroup := some index, freeGroup := index + 1 }, index)
    else if store.groups.length > spellingGroupMax then .error .resourceLimit
    else
      match store.grow memory with
      | none => .error .noMemory
      | some capacity =>
        .ok ({ store with
          groups := store.groups ++ [.empty]
          capacity := capacity
          buildGroup := some store.groups.length
          freeGroup := store.groups.length + 1 }, store.groups.length)

/-- The part that appends the component to the open group. -/
def SpellingStore.addPart (memory : SpellingMemory) (store : SpellingStore) (index : Nat) (spelling : Text) :
    SpellingStore × Int :=
  match store.groups[index]? with
  | none => (store, generatedLocation)
  | some group =>
    if group.parts.length ≥ spellingComponents then ({ store with status := .resourceLimit }, generatedLocation)
    else if !memory.strndup then ({ store with status := .noMemory }, generatedLocation)
    else
      let location := spellingLocation index group.parts.length
      ({ store with
        groups := store.groups.set index { group with parts := group.parts ++ [spelling] }
        lastLocation := location }, location)

/-- `sqlparser_handle_append_identifier_spelling` -/
def SpellingStore.append (memory : SpellingMemory) (store : SpellingStore) (spelling : Text) : SpellingStore × Int :=
  if store.status ≠ .ok then (store, generatedLocation)
  else
    match store.openGroup memory with
    | .error status => ({ store with status := status }, generatedLocation)
    | .ok (opened, index) => opened.addPart memory index spelling

/-- `sqlparser_handle_finish_identifier_spelling` -/
def SpellingStore.finish (store : SpellingStore) : SpellingStore × Except Error Unit :=
  ({ store with buildGroup := none, lastLocation := generatedLocation, status := .ok },
    match store.status with
    | .ok => .ok ()
    | .noMemory => .error outOfMemory
    | status => .error ⟨status, "generated identifier spelling is too large"⟩)

/-- `sqlparser_handle_identifier_spelling` -/
def SpellingStore.lookup (store : SpellingStore) (location : Int) (component : Nat) : Option Text :=
  if isIdentifierSpelling location then
    match store.groups[spellingGroup location]? with
    | none => none
    | some group =>
      if component > sizeMax - spellingComponent location then none
      else group.parts[component + spellingComponent location]?
  else none

/-! ## Mark and sweep -/

/-- The group of a location is in use. -/
def markLocation (used : List Bool) (location : Int) : List Bool :=
  if isIdentifierSpelling location ∧ spellingGroup location < used.length then used.set (spellingGroup location) true
  else used

mutual

/-- `sqlparser_mark_identifier_spelling_groups` -/
def markMessage (used : List Bool) : Protobuf.Message → List Bool
  | .mk type _ quantifier fields => markFields type quantifier used fields

def markFields (type : MessageType) (quantifier : Nat → Nat) (used : List Bool) : Fields → List Bool
  | .nil => used
  | .cons field value rest =>
    markFields type quantifier
      (if entersField type quantifier field then
        if isSourceLocation field then markValueLocation used value
        else if field.type = .message then markValue used value
        else used
      else used) rest

def markValueLocation (used : List Bool) : Value → List Bool
  | .int32 _ location => markLocation used location
  | _ => used

def markValue (used : List Bool) : Value → List Bool
  | .child message => markMessage used message
  | .items messages => markItems used messages
  | _ => used

def markItems (used : List Bool) : Messages → List Bool
  | .nil => used
  | .null rest => markItems used rest
  | .cons message rest => markItems (markMessage used message) rest

end

/-- The groups behind a sweep, without those at the end that are empty. -/
def sweptGroups (groups : List IdentifierSpelling) (used : List Bool) : List IdentifierSpelling :=
  (List.zipWith (fun group isUsed => if isUsed then group else .empty) groups used).rdropWhile fun group => group.parts = []

/-- `sqlparser_handle_sweep_identifier_spellings_for_message`, with the alias locations of the
identifier mutations. -/
def SpellingStore.sweep (memory : SpellingMemory) (store : SpellingStore) (message : Option Protobuf.Message)
    (mutations : List Int) : SpellingStore :=
  match message with
  | none => store
  | some message =>
    if store.groups = [] ∨ store.buildGroup ≠ none ∨ !memory.calloc then store
    else
      let used := mutations.foldl markLocation (markMessage (List.replicate store.groups.length false) message)
      let groups := sweptGroups store.groups used
      let firstFree := used.findIdx fun isUsed => !isUsed
      if groups = [] then { store with groups := [], capacity := 0, freeGroup := 0 }
      else
        { store with
          groups := groups
          capacity := if store.capacity > groups.length * 2 ∧ memory.realloc then groups.length else store.capacity
          freeGroup := if firstFree < groups.length then firstFree else groups.length }

end SqlParser.Core
