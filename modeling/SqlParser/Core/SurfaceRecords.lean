import SqlParser.Core.AstSurface
import SqlParser.Core.NationalLiterals
import SqlParser.Library.OwnedRecords

/-! # Records bound to an AST

National literals and MINUS operators are recorded by their position among the string literals
and the EXCEPT operations of a text. `sqlparser_dialect_national_literal.c` and
`sqlparser_dialect_minus.c` bind the records to the nodes of the AST, so that they can be
placed again after the AST is edited. The two files have the same functions.
-/

namespace SqlParser.Core

open SqlParser.Library.LowerBound SqlParser.Library.OwnedRecords

/-! ## The common functions -/

/-- A list of records with its checkpoint, of which the two record states are instances. -/
class SurfaceRecords (S : Type) (R : outParam Type) [OwnedRecord R] where
  kind : RecordKind
  items : S → List R
  count : S → Nat
  fragmentStart : S → Nat
  fragmentBase : S → Nat
  make : List R → Nat → Nat → Nat → S
  items_make (records : List R) (count start base : Nat) : items (make records count start base) = records
  count_make (records : List R) (number start base : Nat) : count (make records number start base) = number
  fragmentStart_make (records : List R) (count start base : Nat) : fragmentStart (make records count start base) = start
  fragmentBase_make (records : List R) (count start base : Nat) : fragmentBase (make records count start base) = base
  make_self (records : S) : make (items records) (count records) (fragmentStart records) (fragmentBase records) = records
  ownerMissing : String
  checkpointInvalid : String
  shapeInconsistent : String

attribute [simp] SurfaceRecords.items_make SurfaceRecords.count_make SurfaceRecords.fragmentStart_make
  SurfaceRecords.fragmentBase_make SurfaceRecords.make_self

namespace SurfaceRecords

variable {S R : Type} [OwnedRecord R] [SurfaceRecords S R]

/-- The nodes that the records of `S` are about, in the order of a visit. -/
def visited (S : Type) {R : Type} [OwnedRecord R] [SurfaceRecords S R] (events : List Event) : List Nat :=
  counted (kind S) events

def withItems (records : S) (items : List R) : S :=
  make items (count records) (fragmentStart records) (fragmentBase records)

def beginFragment (records : S) : S :=
  make (items records) (count records) (items records).length (count records)

def appendRecord (records : S) (record : R) : S :=
  withItems records (items records ++ [record])

def setCount (records : S) (count : Nat) : S :=
  make (items records) count (fragmentStart records) (fragmentBase records)

def bindAst (records : S) (ast : Option ParseResult) : Except Error S :=
  if (items records).isEmpty then .ok records
  else
    let unbound := (items records).map (OwnedRecord.own none)
    match ast with
    | none => .ok (withItems records unbound)
    | some ast =>
      (bindRoots (Error.mk .internalError (ownerMissing S)) 0 (visited S (visitRoots [ast.message])) unbound).map
        (withItems records)

def bindFragment (records : S) (baseAst : Option ParseResult) (roots : List Message) : Except Error S :=
  if fragmentStart records > (items records).length then .error ⟨.internalError, checkpointInvalid S⟩
  else do
    let before ← bindRoots (Error.mk .internalError (ownerMissing S)) 0
      (visited S (visitRoots (baseAst.map ParseResult.message).toList)) ((items records).take (fragmentStart records))
    let added ← bindRoots (Error.mk .internalError (ownerMissing S)) (fragmentBase records) (visited S (visitRoots roots))
      ((items records).drop (fragmentStart records))
    return withItems records (before ++ added)

def reconcile (records : S) (ast : Option ParseResult) : S :=
  match ast with
  | none => records
  | some ast =>
    let seen := visited S (surfaceVisit ast)
    let placed := reconcileItems sizeMax seen (items records)
    make placed seen.length placed.length seen.length

def cloneOwners (records : S) (sourceRoot cloneRoot : Option Message) : Except Error S :=
  match sourceRoot, cloneRoot with
  | some source, some clone =>
    if (items records).isEmpty then .ok records
    else
      match surfaceClone source clone with
      | some events =>
        .ok (withItems records (cloneItems sizeMax (countedPairs (kind S) events) (items records)))
      | none => .error ⟨.internalError, shapeInconsistent S⟩
  | _, _ => .ok records

@[simp] theorem items_withItems (records : S) (new : List R) : items (withItems records new) = new :=
  items_make new _ _ _

@[simp] theorem fragmentStart_withItems (records : S) (new : List R) :
    fragmentStart (withItems records new) = fragmentStart records :=
  fragmentStart_make new _ _ _

@[simp] theorem fragmentBase_withItems (records : S) (new : List R) :
    fragmentBase (withItems records new) = fragmentBase records :=
  fragmentBase_make new _ _ _

@[simp] theorem items_beginFragment (records : S) : items (beginFragment records) = items records :=
  items_make _ _ _ _

@[simp] theorem fragmentStart_beginFragment (records : S) : fragmentStart (beginFragment records) = (items records).length :=
  fragmentStart_make _ _ _ _

@[simp] theorem fragmentBase_beginFragment (records : S) : fragmentBase (beginFragment records) = count records :=
  fragmentBase_make _ _ _ _

@[simp] theorem items_setCount (records : S) (count : Nat) : items (setCount records count) = items records :=
  items_make _ _ _ _

@[simp] theorem fragmentStart_setCount (records : S) (count : Nat) :
    fragmentStart (setCount records count) = fragmentStart records :=
  fragmentStart_make _ _ _ _

@[simp] theorem fragmentBase_setCount (records : S) (count : Nat) :
    fragmentBase (setCount records count) = fragmentBase records :=
  fragmentBase_make _ _ _ _

theorem withItems_self (records : S) : withItems records (items records) = records :=
  make_self records

/-- Records in strict order are bound to an AST exactly when it has a node for each ordinal. -/
theorem bindAst_eq_ok_iff {records bound : S}
    (sorted : (items records).Pairwise fun left right => OwnedRecord.ordinal left < OwnedRecord.ordinal right)
    {ast : ParseResult} :
    bindAst records (some ast) = .ok bound ↔
      (∀ record ∈ items records, OwnedRecord.ordinal record < (visited S (surfaceVisit ast)).length) ∧
        bound = withItems records ((items records).map (visitedOwner 0 (visited S (surfaceVisit ast)))) := by
  have forget (record : R) : visitedOwner 0 (visited S (surfaceVisit ast)) (OwnedRecord.own none record) =
      visitedOwner 0 (visited S (surfaceVisit ast)) record := by
    rw [visitedOwner, OwnedRecord.ordinal_own, OwnedRecord.own_own, visitedOwner]
  simp only [bindAst, visitRoots_message]
  cases empty : (items records).isEmpty with
  | true =>
    have none_listed := List.isEmpty_iff.mp empty
    have same := withItems_self records
    rw [none_listed] at same
    simp [none_listed, same, eq_comm]
  | false =>
    have unbound_sorted : ((items records).map (OwnedRecord.own none)).Pairwise
        fun left right => OwnedRecord.ordinal left < OwnedRecord.ordinal right := by
      simpa [List.pairwise_map] using sorted
    have binds (result : List R) := @bindRoots_eq_ok_iff R _ _ (Error.mk .internalError (ownerMissing S)) 0
      (visited S (surfaceVisit ast)) _ result unbound_sorted fun _ _ => Nat.zero_le _
    simp only [List.mem_map, forall_exists_index, and_imp, forall_apply_eq_imp_iff₂, OwnedRecord.ordinal_own,
      Nat.zero_add, List.map_map, Function.comp_def, forget] at binds
    rw [if_neg Bool.false_ne_true]
    constructor
    · intro made
      cases outcome : bindRoots (Error.mk .internalError (ownerMissing S)) 0 (visited S (surfaceVisit ast))
          ((items records).map (OwnedRecord.own none)) with
      | error failure =>
        rw [outcome] at made
        cases made
      | ok result =>
        rw [outcome] at made
        cases made
        obtain ⟨inside, rfl⟩ := (binds result).mp outcome
        exact ⟨inside, rfl⟩
    · rintro ⟨inside, rfl⟩
      rw [(binds _).mpr ⟨inside, rfl⟩, Except.map]

/-- Records that are placed in the traversal are bound to it as they are. -/
theorem bindAst_placed {records : S} {ast : ParseResult} (placed : Placed (visited S (surfaceVisit ast)) (items records)) :
    bindAst records (some ast) = .ok records := by
  rw [bindAst_eq_ok_iff placed.sorted, placed.map_visitedOwner, withItems_self]
  exact ⟨fun record listed => placed.ordinal_lt listed, rfl⟩

/-- Behind records placed in the base AST, a fragment is bound when its own nodes have its ordinals. -/
theorem bindFragment_eq_ok {records : S} {before added : List R} {ast : ParseResult} {roots : List Message}
    (split : items records = before ++ added) (start : fragmentStart records = before.length)
    (placed : Placed (visited S (surfaceVisit ast)) before)
    (sorted : added.Pairwise fun left right => OwnedRecord.ordinal left < OwnedRecord.ordinal right)
    (starts : ∀ record ∈ added, fragmentBase records ≤ OwnedRecord.ordinal record)
    (inside : ∀ record ∈ added,
      OwnedRecord.ordinal record < fragmentBase records + (visited S (visitRoots roots)).length) :
    bindFragment records (some ast) roots =
      .ok (withItems records (before ++ added.map (visitedOwner (fragmentBase records) (visited S (visitRoots roots))))) := by
  have first : bindRoots (Error.mk .internalError (ownerMissing S)) 0 (visited S (surfaceVisit ast)) before = .ok before :=
    placed.bindRoots_eq _
  have second : bindRoots (Error.mk .internalError (ownerMissing S)) (fragmentBase records)
      (visited S (visitRoots roots)) added =
        .ok (added.map (visitedOwner (fragmentBase records) (visited S (visitRoots roots)))) :=
    (bindRoots_eq_ok_iff sorted starts).mpr ⟨inside, rfl⟩
  have checkpoint : ¬ fragmentStart records > (items records).length := by
    rw [start, split, List.length_append]
    omega
  rw [bindFragment, if_neg checkpoint, split, start, List.take_left' rfl, List.drop_left' rfl, Option.map_some,
    Option.toList_some, visitRoots_message, first, second]
  rfl

/-- The records of a copy are cloned from the records of its source. -/
theorem cloneOwners_copy (records : S) (source : Message) (fresh : Nat → Nat) :
    cloneOwners records (some source) (some (source.copy fresh)) =
      .ok (withItems records (cloneItems sizeMax
        ((ownersOf (kind S) source.messages).map fun node => (node, fresh node)) (items records))) := by
  obtain ⟨events, walked, pairs⟩ := @surfaceClone_copy fresh (kind S) source
  simp only [cloneOwners, walked, pairs]
  cases empty : (items records).isEmpty with
  | false => rfl
  | true =>
    have none_listed := List.isEmpty_iff.mp empty
    have same := withItems_self records
    rw [none_listed] at same
    rw [none_listed, cloneItems_nil, same]
    rfl

end SurfaceRecords

/-! ## National literals -/

instance : OwnedRecord NationalLiteral where
  ordinal := NationalLiteral.ordinal
  owner := NationalLiteral.owner
  place position literal := { literal with ordinal := position }
  own owner literal := { literal with owner := owner }
  ordinal_place _ _ := rfl
  owner_place _ _ := rfl
  place_place _ _ _ := rfl
  ordinal_own _ _ := rfl
  owner_own _ _ := rfl
  own_owner _ := rfl
  own_own _ _ _ := rfl

instance : SurfaceRecords NationalLiterals NationalLiteral where
  kind := .stringLiteral
  items := NationalLiterals.items
  count := NationalLiterals.literalCount
  fragmentStart := NationalLiterals.fragmentStart
  fragmentBase := NationalLiterals.fragmentLiteralBase
  make items literalCount fragmentStart fragmentLiteralBase := ⟨items, literalCount, fragmentStart, fragmentLiteralBase⟩
  items_make _ _ _ _ := rfl
  count_make _ _ _ _ := rfl
  fragmentStart_make _ _ _ _ := rfl
  fragmentBase_make _ _ _ _ := rfl
  make_self _ := rfl
  ownerMissing := "national literal AST owner is missing"
  checkpointInvalid := "national literal fragment checkpoint is invalid"
  shapeInconsistent := "cloned national literal AST shape is inconsistent"

namespace NationalLiterals

theorem append_eq (literals : NationalLiterals) (literalSql : Text) (ordinal : Nat) :
    literals.append literalSql ordinal = SurfaceRecords.appendRecord literals ⟨literalSql, none, ordinal, none⟩ :=
  rfl

/-- `sqlparser_dialect_national_literals_begin_fragment` -/
def beginFragment (literals : NationalLiterals) : NationalLiterals :=
  SurfaceRecords.beginFragment literals

/-- `sqlparser_dialect_national_literals_bind_ast` -/
def bindAst (literals : NationalLiterals) (ast : Option ParseResult) : Except Error NationalLiterals :=
  SurfaceRecords.bindAst literals ast

/-- `sqlparser_dialect_national_literals_bind_fragment` -/
def bindFragment (literals : NationalLiterals) (baseAst : Option ParseResult) (roots : List Message) :
    Except Error NationalLiterals :=
  SurfaceRecords.bindFragment literals baseAst roots

/-- `sqlparser_dialect_national_literals_reconcile` -/
def reconcile (literals : NationalLiterals) (ast : Option ParseResult) : NationalLiterals :=
  SurfaceRecords.reconcile literals ast

/-- `sqlparser_dialect_national_literals_clone_owners` -/
def cloneOwners (literals : NationalLiterals) (sourceRoot cloneRoot : Option Message) : Except Error NationalLiterals :=
  SurfaceRecords.cloneOwners literals sourceRoot cloneRoot

end NationalLiterals

/-! ## MINUS operators -/

/-- `sqlparser_dialect_minus_t` -/
structure Minus where
  ordinal : Nat
  owner : Option Nat
  deriving DecidableEq, Repr

/-- `sqlparser_dialect_minuses_t`; its count is the number of items. -/
structure Minuses where
  items : List Minus := []
  exceptCount : Nat := 0
  fragmentStart : Nat := 0
  fragmentExceptBase : Nat := 0
  deriving DecidableEq, Repr

instance : OwnedRecord Minus where
  ordinal := Minus.ordinal
  owner := Minus.owner
  place position minus := { minus with ordinal := position }
  own owner minus := { minus with owner := owner }
  ordinal_place _ _ := rfl
  owner_place _ _ := rfl
  place_place _ _ _ := rfl
  ordinal_own _ _ := rfl
  owner_own _ _ := rfl
  own_owner _ := rfl
  own_own _ _ _ := rfl

instance : SurfaceRecords Minuses Minus where
  kind := .exceptOperation
  items := Minuses.items
  count := Minuses.exceptCount
  fragmentStart := Minuses.fragmentStart
  fragmentBase := Minuses.fragmentExceptBase
  make items exceptCount fragmentStart fragmentExceptBase := ⟨items, exceptCount, fragmentStart, fragmentExceptBase⟩
  items_make _ _ _ _ := rfl
  count_make _ _ _ _ := rfl
  fragmentStart_make _ _ _ _ := rfl
  fragmentBase_make _ _ _ _ := rfl
  make_self _ := rfl
  ownerMissing := "MINUS AST owner is missing"
  checkpointInvalid := "MINUS fragment checkpoint is invalid"
  shapeInconsistent := "cloned MINUS AST shape is inconsistent"

namespace Minuses

/-- `sqlparser_dialect_minuses_append` -/
def append (minuses : Minuses) (ordinal : Nat) : Minuses :=
  { minuses with items := minuses.items ++ [⟨ordinal, none⟩] }

theorem append_eq (minuses : Minuses) (ordinal : Nat) :
    minuses.append ordinal = SurfaceRecords.appendRecord minuses ⟨ordinal, none⟩ :=
  rfl

/-- `sqlparser_dialect_minuses_match` -/
def matches' (minuses : Minuses) (ordinal : Nat) : Bool :=
  (lookup Minus.ordinal minuses.items ordinal).isSome

/-- `sqlparser_dialect_minuses_begin_fragment` -/
def beginFragment (minuses : Minuses) : Minuses :=
  SurfaceRecords.beginFragment minuses

/-- `sqlparser_dialect_minuses_bind_ast` -/
def bindAst (minuses : Minuses) (ast : Option ParseResult) : Except Error Minuses :=
  SurfaceRecords.bindAst minuses ast

/-- `sqlparser_dialect_minuses_bind_fragment` -/
def bindFragment (minuses : Minuses) (baseAst : Option ParseResult) (roots : List Message) : Except Error Minuses :=
  SurfaceRecords.bindFragment minuses baseAst roots

/-- `sqlparser_dialect_minuses_reconcile` -/
def reconcile (minuses : Minuses) (ast : Option ParseResult) : Minuses :=
  SurfaceRecords.reconcile minuses ast

/-- `sqlparser_dialect_minuses_clone_owners` -/
def cloneOwners (minuses : Minuses) (sourceRoot cloneRoot : Option Message) : Except Error Minuses :=
  SurfaceRecords.cloneOwners minuses sourceRoot cloneRoot

end Minuses

end SqlParser.Core
