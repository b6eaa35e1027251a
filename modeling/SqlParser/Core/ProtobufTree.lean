import SqlParser.Core.Basic

/-! # Protobuf trees

A message as the walks that read its descriptor see it: the fields in the order of the descriptor,
each with its value. Integers and strings have the address of their slot, and the integers that
tell which fields are set are found by their offset.
-/

namespace SqlParser.Protobuf

open SqlParser.Core (Text ascii)

inductive FieldType where
  | int32
  | string
  | message
  | other
  deriving DecidableEq, Repr

inductive Label where
  | required
  | optional
  | repeated
  | none
  deriving DecidableEq, Repr

/-- The descriptors with which the walks compare. -/
inductive MessageType where
  | parseResult
  | rawStmt
  | query
  | node
  | typeName
  | list
  | sqlvalueFunction
  | aConst
  | string
  | float
  | bitString
  | createTableSpaceStmt
  | other (name : Nat)
  deriving DecidableEq, Repr

/-- `ProtobufCFieldDescriptor` -/
structure FieldDescriptor where
  name : Text
  id : Nat
  label : Label
  type : FieldType
  oneof : Bool
  quantifierOffset : Nat
  descriptor : MessageType
  deriving DecidableEq, Repr

mutual

/-- `ProtobufCMessage`; a quantifier is the integer at an offset. -/
inductive Message where
  | mk (type : MessageType) (unknownFields : Nat) (quantifier : Nat → Nat) (fields : Fields)

inductive Fields where
  | nil
  | cons (descriptor : FieldDescriptor) (value : Value) (rest : Fields)

inductive Value where
  | int32 (slot : Nat) (value : Int)
  | string (slot : Nat) (text : Option Text)
  | other (value : Nat)
  | absent
  | child (message : Message)
  | items (messages : Messages)
  | missingItems

inductive Messages where
  | nil
  | null (rest : Messages)
  | cons (message : Message) (rest : Messages)

end

/-- `offsetof(PgQuery__Node, node_case)` -/
def nodeCaseOffset : Nat := 24

def Message.type : Message → MessageType
  | .mk type _ _ _ => type

def Message.quantifier : Message → Nat → Nat
  | .mk _ _ quantifier _ => quantifier

def Message.fields : Message → Fields
  | .mk _ _ _ fields => fields

/-- `protobuf_c_message_descriptor_get_field` -/
def Fields.find (id : Nat) : Fields → Option FieldDescriptor
  | .nil => none
  | .cons descriptor _ rest => if descriptor.id = id then some descriptor else rest.find id

/-- The value of the member with a name. -/
def Fields.member (name : Text) : Fields → Option Value
  | .nil => none
  | .cons descriptor value rest => if descriptor.name = name then some value else rest.member name

/-- A change of the member with a name. -/
def Fields.replace (name : Text) (change : Value → Value) : Fields → Fields
  | .nil => .nil
  | .cons descriptor value rest =>
    if descriptor.name = name then .cons descriptor (change value) rest
    else .cons descriptor value (rest.replace name change)

/-- The slot and the value of an integer member. -/
def Fields.int32 (name : Text) (fields : Fields) : Option (Nat × Int) :=
  match fields.member name with
  | some (.int32 slot value) => some (slot, value)
  | _ => none

/-- The message of a member. -/
def Fields.message (name : Text) (fields : Fields) : Option Message :=
  match fields.member name with
  | some (.child message) => some message
  | _ => none

/-- A walk sees of a node the field that is set only. -/
def walksField (type : MessageType) (quantifier : Nat → Nat) (field : FieldDescriptor) : Bool :=
  type ≠ .node || field.id = quantifier nodeCaseOffset

/-- Whether a walk enters a field: the one that is set of each choice. -/
def entersField (type : MessageType) (quantifier : Nat → Nat) (field : FieldDescriptor) : Bool :=
  walksField type quantifier field && !(field.oneof && quantifier field.quantifierOffset ≠ field.id)

/-- Whether a field is the source location of its message. -/
def isSourceLocation (field : FieldDescriptor) : Bool :=
  field.type = .int32 && field.label ≠ .repeated && field.name = ascii "location"

/-! ## Slots -/

mutual

/-- The slots of the integers of a message and of what hangs under it. -/
def Message.slots : Message → List Nat
  | .mk _ _ _ fields => fields.slots

def Fields.slots : Fields → List Nat
  | .nil => []
  | .cons _ value rest => value.slots ++ rest.slots

def Value.slots : Value → List Nat
  | .int32 slot _ => [slot]
  | .child message => message.slots
  | .items messages => messages.slots
  | _ => []

def Messages.slots : Messages → List Nat
  | .nil => []
  | .null rest => rest.slots
  | .cons message rest => message.slots ++ rest.slots

end

/-- The slots of the integers of a message itself, with the names of their fields. -/
def Fields.namedSlots : Fields → List (Text × Nat)
  | .nil => []
  | .cons descriptor (.int32 slot _) rest => (descriptor.name, slot) :: rest.namedSlots
  | .cons _ _ rest => rest.namedSlots

/-- The slots of the messages that hang under a message. -/
def Fields.childSlots : Fields → List Nat
  | .nil => []
  | .cons _ (.int32 _ _) rest => rest.childSlots
  | .cons _ value rest => value.slots ++ rest.childSlots

theorem Fields.slots_perm (fields : Fields) :
    fields.slots.Perm (fields.namedSlots.map Prod.snd ++ fields.childSlots) := by
  cases fields with
  | nil => exact .refl _
  | cons descriptor value rest =>
    have rest_perm := Fields.slots_perm rest
    cases value with
    | int32 slot value => exact rest_perm.cons slot
    | string | other | absent | missingItems => exact rest_perm
    | child message =>
      exact (rest_perm.append_left message.slots).trans (List.perm_append_comm_assoc _ _ _)
    | items messages =>
      exact (rest_perm.append_left messages.slots).trans (List.perm_append_comm_assoc _ _ _)

theorem Fields.int32_named {name : Text} {slot : Nat} {value : Int} (fields : Fields)
    (found : fields.int32 name = some (slot, value)) : (name, slot) ∈ fields.namedSlots := by
  cases fields with
  | nil => cases found
  | cons descriptor held rest =>
    unfold Fields.int32 at found
    rw [Fields.member] at found
    split_ifs at found with same
    · cases held with
      | int32 other number =>
        cases found
        rw [Fields.namedSlots, same]
        exact List.mem_cons_self
      | string | other | absent | child | items | missingItems => cases found
    · have behind : (name, slot) ∈ rest.namedSlots := Fields.int32_named rest found
      cases held with
      | int32 other number => exact List.mem_cons_of_mem _ behind
      | string | other | absent | child | items | missingItems => exact behind

mutual

/-- Every integer replaced by what a function makes of its slot and its value. -/
def Message.mapSlots (change : Nat → Int → Int) : Message → Message
  | .mk type unknownFields quantifier fields => .mk type unknownFields quantifier (fields.mapSlots change)

def Fields.mapSlots (change : Nat → Int → Int) : Fields → Fields
  | .nil => .nil
  | .cons descriptor value rest => .cons descriptor (value.mapSlots change) (rest.mapSlots change)

def Value.mapSlots (change : Nat → Int → Int) : Value → Value
  | .int32 slot value => .int32 slot (change slot value)
  | .string slot text => .string slot text
  | .other value => .other value
  | .absent => .absent
  | .child message => .child (message.mapSlots change)
  | .items messages => .items (messages.mapSlots change)
  | .missingItems => .missingItems

def Messages.mapSlots (change : Nat → Int → Int) : Messages → Messages
  | .nil => .nil
  | .null rest => .null (rest.mapSlots change)
  | .cons message rest => .cons (message.mapSlots change) (rest.mapSlots change)

end

mutual

theorem Message.mapSlots_mapSlots (first second : Nat → Int → Int) (message : Message) :
    (message.mapSlots first).mapSlots second = message.mapSlots fun slot value => second slot (first slot value) := by
  cases message with
  | mk type unknownFields quantifier fields =>
    simp only [Message.mapSlots, Fields.mapSlots_mapSlots first second fields]

theorem Fields.mapSlots_mapSlots (first second : Nat → Int → Int) (fields : Fields) :
    (fields.mapSlots first).mapSlots second = fields.mapSlots fun slot value => second slot (first slot value) := by
  cases fields with
  | nil => rfl
  | cons descriptor value rest =>
    simp only [Fields.mapSlots, Value.mapSlots_mapSlots first second value, Fields.mapSlots_mapSlots first second rest]

theorem Value.mapSlots_mapSlots (first second : Nat → Int → Int) (value : Value) :
    (value.mapSlots first).mapSlots second = value.mapSlots fun slot value => second slot (first slot value) := by
  cases value with
  | int32 | string | other | absent | missingItems => rfl
  | child message => simp only [Value.mapSlots, Message.mapSlots_mapSlots first second message]
  | items messages => simp only [Value.mapSlots, Messages.mapSlots_mapSlots first second messages]

theorem Messages.mapSlots_mapSlots (first second : Nat → Int → Int) (messages : Messages) :
    (messages.mapSlots first).mapSlots second = messages.mapSlots fun slot value => second slot (first slot value) := by
  cases messages with
  | nil => rfl
  | null rest => simp only [Messages.mapSlots, Messages.mapSlots_mapSlots first second rest]
  | cons message rest =>
    simp only [Messages.mapSlots, Message.mapSlots_mapSlots first second message,
      Messages.mapSlots_mapSlots first second rest]

end

mutual

theorem Message.mapSlots_id (message : Message) : message.mapSlots (fun _ value => value) = message := by
  cases message with
  | mk type unknownFields quantifier fields => simp only [Message.mapSlots, Fields.mapSlots_id fields]

theorem Fields.mapSlots_id (fields : Fields) : fields.mapSlots (fun _ value => value) = fields := by
  cases fields with
  | nil => rfl
  | cons descriptor value rest => simp only [Fields.mapSlots, Value.mapSlots_id value, Fields.mapSlots_id rest]

theorem Value.mapSlots_id (value : Value) : value.mapSlots (fun _ value => value) = value := by
  cases value with
  | int32 | string | other | absent | missingItems => rfl
  | child message => simp only [Value.mapSlots, Message.mapSlots_id message]
  | items messages => simp only [Value.mapSlots, Messages.mapSlots_id messages]

theorem Messages.mapSlots_id (messages : Messages) : messages.mapSlots (fun _ value => value) = messages := by
  cases messages with
  | nil => rfl
  | null rest => simp only [Messages.mapSlots, Messages.mapSlots_id rest]
  | cons message rest => simp only [Messages.mapSlots, Message.mapSlots_id message, Messages.mapSlots_id rest]

end

@[simp] theorem Message.type_mapSlots (change : Nat → Int → Int) (message : Message) :
    (message.mapSlots change).type = message.type := by
  cases message
  rfl

@[simp] theorem Message.fields_mapSlots (change : Nat → Int → Int) (message : Message) :
    (message.mapSlots change).fields = message.fields.mapSlots change := by
  cases message
  rfl

theorem Fields.member_mapSlots (change : Nat → Int → Int) (name : Text) (fields : Fields) :
    (fields.mapSlots change).member name = (fields.member name).map (Value.mapSlots change) := by
  cases fields with
  | nil => rfl
  | cons descriptor value rest =>
    simp only [Fields.mapSlots, Fields.member]
    split
    next => rfl
    next => exact Fields.member_mapSlots change name rest

theorem Fields.int32_mapSlots (change : Nat → Int → Int) (name : Text) (fields : Fields) :
    (fields.mapSlots change).int32 name = (fields.int32 name).map fun (slot, value) => (slot, change slot value) := by
  unfold Fields.int32
  rw [Fields.member_mapSlots]
  cases fields.member name with
  | none => rfl
  | some value => cases value <;> rfl

theorem Fields.message_mapSlots (change : Nat → Int → Int) (name : Text) (fields : Fields) :
    (fields.mapSlots change).message name = (fields.message name).map (Message.mapSlots change) := by
  unfold Fields.message
  rw [Fields.member_mapSlots]
  cases fields.member name with
  | none => rfl
  | some value => cases value <;> rfl

end SqlParser.Protobuf
