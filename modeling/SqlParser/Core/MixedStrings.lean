import SqlParser.Core.InsertEdits
import SqlParser.Core.ProtobufTree

/-! # Strings among mixed expressions

`sqlparser_patch_mixed_string_tree` walks the tree of an INSERT twice: the first walk checks and counts
the strings that an edit replaces, the second one replaces them and moves the locations.
-/

namespace SqlParser.Core

open SqlParser.Protobuf

/-! ## The lookup -/

/-- `lookup_location` and `lookup_index`, while they are valid. -/
structure MixedLookup where
  location : Nat
  index : Nat
  deriving DecidableEq, Repr

/-- The index from where the last query stands, or a search where the query goes back. -/
def mixedSearch (edits : List SourceEdit) (lookup : Option MixedLookup) (location : Nat) : Nat :=
  match lookup with
  | none => editBefore edits location
  | some previous =>
    if location < previous.location then editBefore edits location
    else previous.index + endedEdits (edits.drop previous.index) location

/-- `sqlparser_patch_mixed_edit_before`: the lookup behind the query, and its index. -/
def mixedEditBefore (edits : List SourceEdit) (lookup : Option MixedLookup) (location : Nat) : Option MixedLookup × Nat :=
  match edits.head? with
  | none => (lookup, 0)
  | some first =>
    if location < first.sourceEnd then (lookup, 0)
    else (some ⟨location, mixedSearch edits lookup location⟩, mixedSearch edits lookup location)

/-- The answers to a sequence of queries. -/
def mixedEditsBefore (edits : List SourceEdit) (lookup : Option MixedLookup) : List Nat → List Nat
  | [] => []
  | location :: locations =>
    (mixedEditBefore edits lookup location).2 :: mixedEditsBefore edits (mixedEditBefore edits lookup location).1 locations

/-! ## Parts of a walk -/

/-- What a walk keeps: the replacements that are not taken, the counts and the lookup. -/
structure MixedState where
  replacements : List (Option Text)
  strings : Nat
  matched : Nat
  lookup : Option MixedLookup
  deriving DecidableEq, Repr

/-- A part of a walk makes the new value of what it walks over; `none` is a refusal, or a replacement
that is read though it is taken. -/
abbrev MixedWalk (α : Type) := MixedState → Option (MixedState × α)

namespace MixedWalk

variable {α β γ : Type}

def done (value : α) : MixedWalk α := fun state => some (state, value)

def refuse : MixedWalk α := fun _ => none

def map (change : α → β) (walk : MixedWalk α) : MixedWalk β := fun state =>
  (walk state).map fun (state, value) => (state, change value)

/-- One part behind the other. -/
def both (combine : α → β → γ) (first : MixedWalk α) (second : MixedWalk β) : MixedWalk γ := fun state =>
  (first state).bind fun (state, left) => (second state).map fun (state, right) => (state, combine left right)

end MixedWalk

/-- What the walks read: the source, its edits, their running deltas, and whether the walk mutates. -/
structure MixedContext where
  sql : Text
  edits : List SourceEdit
  deltas : List Int
  mutates : Bool

/-- The conversion to `int32_t` -/
def toInt32 (value : Int) : Int :=
  Int.bmod value (2 ^ 32)

/-- `sqlparser_patch_mixed_location` -/
def mixedLocation (context : MixedContext) (location : Int) : MixedWalk Int := fun state =>
  if location < 0 then some (state, location)
  else if location.toNat > context.sql.length then none
  else
    let (lookup, index) := mixedEditBefore context.edits state.lookup location.toNat
    let state := { state with lookup := lookup }
    if (context.edits[index]?).any fun edit => location.toNat > edit.sourceStart then none
    else some (state, if context.mutates then toInt32 (location + context.deltas.getD index 0) else location)

/-- Whether an edit replaces exactly a quoted text of the source. -/
def isQuotedAt (sql : Text) (edit : SourceEdit) (text : Text) : Bool :=
  edit.sourceEnd - edit.sourceStart = text.length + 2 && sql[edit.sourceStart]? = some 39 &&
    sql[edit.sourceEnd - 1]? = some 39 && (sql.drop (edit.sourceStart + 1)).take text.length = text

/-- The turn of a string constant: its new text. -/
def mixedString (context : MixedContext) (text : Text) (location : Int) : MixedWalk Text := fun state =>
  let state := { state with strings := state.strings + 1 }
  if location < 0 then some (state, text)
  else
    let (lookup, index) := mixedEditBefore context.edits state.lookup location.toNat
    let state := { state with lookup := lookup }
    match context.edits[index]? with
    | none => some (state, text)
    | some edit =>
      if edit.sourceStart ≠ location.toNat then some (state, text)
      else if context.mutates then
        match state.replacements[index]? with
        | some (some replacement) =>
          some ({ state with matched := state.matched + 1, replacements := state.replacements.set index none },
            replacementContent replacement)
        | _ => none
      else if isQuotedAt context.sql edit text then some ({ state with matched := state.matched + 1 }, text)
      else none

/-! ## Constants -/

/-- `offsetof(PgQuery__AConst, val_case)` -/
def valCaseOffset : Nat := 32

/-- `PG_QUERY__A__CONST__VAL_SVAL` -/
def valSval : Nat := 4

def withInt32 (new : Int) : Value → Value
  | .int32 slot _ => .int32 slot new
  | value => value

def withText (new : Text) : Value → Value
  | .string slot _ => .string slot (some new)
  | value => value

/-- A string message with a new text, where there is one, and a new location. -/
def withString (text : Option Text) (location : Int) : Value → Value
  | .child (.mk type unknownFields quantifier fields) =>
    .child (.mk type unknownFields quantifier
      ((match text with
        | some text => fields.replace (ascii "sval") (withText text)
        | none => fields).replace (ascii "location") (withInt32 location)))
  | value => value

/-- What a walk reads of a constant. -/
structure ConstView where
  isString : Bool
  isNull : Bool
  /-- `none` where the message is missing; its text is `none` where the pointer is `NULL`. -/
  sval : Option (Option Text × Int)
  location : Int

def fieldInt32 (fields : Fields) (name : Text) : Int :=
  ((fields.int32 name).map Prod.snd).getD 0

def constView (quantifier : Nat → Nat) (fields : Fields) : ConstView where
  isString := quantifier valCaseOffset = valSval
  isNull :=
    match fields.member (ascii "isnull") with
    | some (.other value) => value ≠ 0
    | _ => false
  sval := (fields.message (ascii "sval")).map fun sval =>
    (match sval.fields.member (ascii "sval") with
      | some (.string _ text) => text
      | _ => none, fieldInt32 sval.fields (ascii "location"))
  location := fieldInt32 fields (ascii "location")

/-- A constant with a new text, a new location of its string, and a new location. -/
def constWith (isString : Bool) (text : Option Text) (wrapper location : Int) (fields : Fields) : Fields :=
  (if isString then fields.replace (ascii "sval") (withString text wrapper) else fields).replace (ascii "location")
    (withInt32 location)

/-- The string of a constant, if it is one and not null. -/
def mixedConstText (context : MixedContext) (view : ConstView) : MixedWalk (Option Text) :=
  if view.isString ∧ !view.isNull then
    match view.sval with
    | some (some text, _) => (mixedString context text view.location).map some
    | _ => .refuse
  else .done none

/-- The location of the string of a constant. -/
def mixedConstWrapper (context : MixedContext) (view : ConstView) : MixedWalk Int :=
  if view.isString then
    match view.sval with
    | some (_, wrapper) => mixedLocation context wrapper
    | none => .done 0
  else .done 0

def mixedConst (context : MixedContext) (quantifier : Nat → Nat) (fields : Fields) : MixedWalk Fields :=
  let view := constView quantifier fields
  .both (fun (text, wrapper) location => constWith view.isString text wrapper location fields)
    (.both Prod.mk (mixedConstText context view) (mixedConstWrapper context view)) (mixedLocation context view.location)

/-! ## The walk -/

mutual

/-- `sqlparser_patch_mixed_string_tree`; its shortcuts for a node and for a list go where the loop over
the fields goes. -/
def mixedMessage (context : MixedContext) (depth : Nat) : Protobuf.Message → MixedWalk Protobuf.Message
  | .mk type unknownFields quantifier fields =>
    if depth > 256 then .refuse
    else if type = .sqlvalueFunction then
      (mixedLocation context (fieldInt32 fields (ascii "location"))).map fun location =>
        .mk type unknownFields quantifier (fields.replace (ascii "location") (withInt32 location))
    else if type = .aConst then (mixedConst context quantifier fields).map (.mk type unknownFields quantifier)
    else (mixedFields context depth type quantifier fields).map (.mk type unknownFields quantifier)

def mixedFields (context : MixedContext) (depth : Nat) (type : MessageType) (quantifier : Nat → Nat) :
    Fields → MixedWalk Fields
  | .nil => .done .nil
  | .cons field value rest =>
    .both (Fields.cons field)
      (if entersField type quantifier field then
        if isSourceLocation field then mixedOwnLocation context value
        else if field.type = .message then mixedValue context depth value
        else .done value
      else .done value)
      (mixedFields context depth type quantifier rest)

def mixedOwnLocation (context : MixedContext) : Value → MixedWalk Value
  | .int32 slot location => (mixedLocation context location).map (.int32 slot)
  | value => .done value

def mixedValue (context : MixedContext) (depth : Nat) : Value → MixedWalk Value
  | .child message => (mixedMessage context (depth + 1) message).map .child
  | .items messages => (mixedItems context depth messages).map .items
  | .missingItems => .refuse
  | value => .done value

def mixedItems (context : MixedContext) (depth : Nat) : Messages → MixedWalk Messages
  | .nil => .done .nil
  | .null rest => (mixedItems context depth rest).map .null
  | .cons message rest => .both .cons (mixedMessage context (depth + 1) message) (mixedItems context depth rest)

end

/-- `mixed_deltas` -/
def mixedDeltas (edits : List SourceEdit) : List Int :=
  edits.scanl (fun delta edit => delta + rebaseEditDelta edit) 0

end SqlParser.Core
