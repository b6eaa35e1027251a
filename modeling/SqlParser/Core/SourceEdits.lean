import Mathlib
import SqlParser.Core.Basic
import SqlParser.Library.SpanChain

/-! # The surface source-edit set

`sqlparser_surface.c` collects the edits of one statement in a growable array
that stays sorted by source position.  The module embeds the two insertion
entry points and shows that the array is a canonical set of intervals.
-/

namespace SqlParser.Core

open SqlParser.Library.SpanChain

/-- `sqlparser_surface_source_edit_t`; the replacement carries its own length. -/
structure SourceEdit where
  sourceStart : Nat
  sourceEnd : Nat
  replacement : Option Text
  deriving DecidableEq

def SourceEdit.replacementLength (edit : SourceEdit) : Nat :=
  (edit.replacement.getD []).length

def sizeofSourceEdit : Nat := 32

/-- `sqlparser_surface_source_edits_t`; `count` is the length of `items`. -/
structure SourceEdits where
  items : List SourceEdit
  capacity : Nat
  fits : items.length ≤ capacity
  addressable : capacity ≤ sizeMax

theorem empty_fits : ([] : List SourceEdit).length ≤ 0 := le_rfl

theorem empty_addressable : 0 ≤ sizeMax := Nat.zero_le _

def SourceEdits.empty : SourceEdits := ⟨[], 0, empty_fits, empty_addressable⟩

def sourceEditsOverlap (left : SourceEdit) (rightStart rightEnd : Nat) : Bool :=
  if left.sourceStart = left.sourceEnd then
    left.sourceStart ≥ rightStart && left.sourceStart ≤ rightEnd
  else if rightStart = rightEnd then
    rightStart ≥ left.sourceStart && rightStart ≤ left.sourceEnd
  else
    left.sourceStart < rightEnd && rightStart < left.sourceEnd

/-- What the two allocating calls of an insertion answer. -/
structure Memory where
  strndup : Bool
  realloc : Bool

structure InsertOutcome where
  result : Except Error Unit
  edits : Option SourceEdits
  ownedReplacement : Option (Option Text)
  outSupported : Option Bool

def sourceEditsIndex (items : List SourceEdit) (sourceStart : Nat) : Nat :=
  match items.getLast? with
  | some last =>
    -- The fast path for appending skips the linear search.
    if last.sourceStart < sourceStart then items.length
    else (items.takeWhile (fun edit => edit.sourceStart < sourceStart)).length
  | none => 0

def sourceEditsNeighbourOverlap (items : List SourceEdit) (index sourceStart sourceEnd : Nat) :
    Bool :=
  (0 < index && (items[index - 1]?).any (fun edit => sourceEditsOverlap edit sourceStart sourceEnd)) ||
    (items[index]?).any (fun edit => sourceEditsOverlap edit sourceStart sourceEnd)

def sourceEditsNextCapacity (capacity : Nat) : Nat :=
  if capacity = 0 then 4 else capacity * 2 % (sizeMax + 1)

abbrev Room (edits : SourceEdits) : Type :=
  {capacity : Nat // edits.items.length < capacity ∧ capacity ≤ sizeMax}

theorem nextCapacity_room (edits : SourceEdits)
    (noOverflow : ¬ (sourceEditsNextCapacity edits.capacity < edits.capacity ∨
      sourceEditsNextCapacity edits.capacity > sizeMax / sizeofSourceEdit)) :
    edits.items.length < sourceEditsNextCapacity edits.capacity ∧
      sourceEditsNextCapacity edits.capacity ≤ sizeMax := by
  have fits := edits.fits
  have addressable := edits.addressable
  simp only [not_or, not_lt, sourceEditsNextCapacity, sizeMax, sizeofSourceEdit] at *
  split_ifs at * <;> omega

/-- Room for one more item, unless growing overflows or `realloc` fails. -/
def sourceEditsReserve (memory : Memory) (edits : SourceEdits) : Option (Room edits) :=
  if full : edits.items.length = edits.capacity then
    if overflow : sourceEditsNextCapacity edits.capacity < edits.capacity ∨
        sourceEditsNextCapacity edits.capacity > sizeMax / sizeofSourceEdit then none
    else if memory.realloc then
      some ⟨sourceEditsNextCapacity edits.capacity, nextCapacity_room edits overflow⟩
    else none
  else some ⟨edits.capacity, lt_of_le_of_ne edits.fits full, edits.addressable⟩

def sourceEditsStore (edits : SourceEdits) (index : Nat) (edit : SourceEdit) (room : Room edits) :
    SourceEdits where
  items := edits.items.take index ++ edit :: edits.items.drop index
  capacity := room.1
  fits := by
    have := room.2.1
    simp only [List.length_append, List.length_take, List.length_cons, List.length_drop]
    omega
  addressable := room.2.2

def InsertOutcome.failed (error : Error) (edits : Option SourceEdits)
    (ownedReplacement : Option (Option Text)) (outSupported : Option Bool) : InsertOutcome :=
  ⟨.error error, edits, ownedReplacement, outSupported.map fun _ => false⟩

/-- The stored text: the caller's own allocation, or a copy of the borrowed one. -/
def sourceEditsCopy (memory : Memory) (text : Text) : Option (Option Text) → Option Text
  | some owned => owned
  | none => if memory.strndup then some text else none

def invalidSourceEdit : Error := ⟨.invalidArgument, "source edit arguments are invalid"⟩

/-- `sqlparser_surface_source_edits_insert_internal`; `none` stands for `NULL`. -/
def sourceEditsInsertInternal (memory : Memory) (edits : Option SourceEdits)
    (sourceStart sourceEnd : Nat) (replacement : Option Text)
    (ownedReplacement : Option (Option Text)) (outSupported : Option Bool) : InsertOutcome :=
  match edits, replacement with
  | some list, some text =>
    if outSupported.isNone || sourceStart > sourceEnd || text.length == sizeMax then
      .failed invalidSourceEdit edits ownedReplacement outSupported
    else
      let index := sourceEditsIndex list.items sourceStart
      if sourceEditsNeighbourOverlap list.items index sourceStart sourceEnd then
        ⟨.ok (), edits, ownedReplacement, some false⟩
      else
        match sourceEditsCopy memory text ownedReplacement, sourceEditsReserve memory list with
        | some copy, some room =>
          ⟨.ok (), some (sourceEditsStore list index ⟨sourceStart, sourceEnd, some copy⟩ room),
            ownedReplacement.map fun _ => none, some true⟩
        | _, _ => .failed outOfMemory edits ownedReplacement outSupported
  | _, _ => .failed invalidSourceEdit edits ownedReplacement outSupported

def sourceEditsInsert (memory : Memory) (edits : Option SourceEdits) (sourceStart sourceEnd : Nat)
    (replacement : Option Text) (outSupported : Option Bool) : InsertOutcome :=
  sourceEditsInsertInternal memory edits sourceStart sourceEnd replacement none outSupported

def sourceEditsInsertOwned (memory : Memory) (edits : Option SourceEdits)
    (sourceStart sourceEnd : Nat) (replacement : Option (Option Text))
    (outSupported : Option Bool) : InsertOutcome :=
  sourceEditsInsertInternal memory edits sourceStart sourceEnd replacement.join replacement
    outSupported

/-! ## Calls and runs -/

inductive Replacement where
  | borrowed (text : Option Text)
  | owned (pointer : Option (Option Text))

/-- One call of an insertion entry point, with the answers of the allocator. -/
structure InsertCall where
  memory : Memory
  sourceStart : Nat
  sourceEnd : Nat
  replacement : Replacement
  outSupported : Option Bool

namespace InsertCall

def text (call : InsertCall) : Option Text :=
  match call.replacement with
  | .borrowed text => text
  | .owned pointer => pointer.join

def ownedReplacement (call : InsertCall) : Option (Option Text) :=
  match call.replacement with
  | .borrowed _ => none
  | .owned pointer => pointer

def run (call : InsertCall) (edits : Option SourceEdits) : InsertOutcome :=
  match call.replacement with
  | .borrowed text =>
    sourceEditsInsert call.memory edits call.sourceStart call.sourceEnd text call.outSupported
  | .owned pointer =>
    sourceEditsInsertOwned call.memory edits call.sourceStart call.sourceEnd pointer
      call.outSupported

/-- The arguments that the entry points do not reject. -/
structure Valid (call : InsertCall) : Prop where
  text : call.text.isSome
  outSupported : call.outSupported.isSome
  ordered : call.sourceStart ≤ call.sourceEnd
  length : ∀ text ∈ call.text, text.length ≠ sizeMax

/-- The copy of a borrowed text and the growth of the array succeed. -/
structure EnoughMemory (call : InsertCall) (edits : SourceEdits) : Prop where
  copy : call.ownedReplacement = none → call.memory.strndup = true
  growth : (sourceEditsReserve call.memory edits).isSome

/-- The edit that a successful call stores. -/
def edit (call : InsertCall) : SourceEdit :=
  ⟨call.sourceStart, call.sourceEnd, call.text⟩

theorem run_eq (call : InsertCall) (edits : Option SourceEdits) :
    call.run edits = sourceEditsInsertInternal call.memory edits call.sourceStart call.sourceEnd
      call.text call.ownedReplacement call.outSupported := by
  obtain ⟨memory, sourceStart, sourceEnd, replacement, outSupported⟩ := call
  cases replacement <;> rfl

end InsertCall

/-- The array after a sequence of calls. -/
def insertAll (edits : SourceEdits) : List InsertCall → SourceEdits
  | [] => edits
  | call :: calls => insertAll ((call.run (some edits)).edits.getD edits) calls

def EnoughMemoryAlong (edits : SourceEdits) : List InsertCall → Prop
  | [] => True
  | call :: calls =>
    call.EnoughMemory edits ∧ EnoughMemoryAlong ((call.run (some edits)).edits.getD edits) calls

/-- Strictly sorted by position, and no two edits overlap. -/
structure CanonicalEdits (items : List SourceEdit) : Prop where
  ordered : items.Pairwise (fun left right => left.sourceStart < right.sourceStart)
  apart : items.Pairwise (fun left right =>
    sourceEditsOverlap left right.sourceStart right.sourceEnd = false ∧
      sourceEditsOverlap right left.sourceStart left.sourceEnd = false)

/-! ## What one call can do -/

theorem InsertCall.copy_eq {call : InsertCall} {text copy : Text} (given : call.text = some text)
    (copied : sourceEditsCopy call.memory text call.ownedReplacement = some copy) :
    copy = text := by
  obtain ⟨memory, sourceStart, sourceEnd, replacement, outSupported⟩ := call
  cases replacement with
  | borrowed borrowed =>
    simp only [ownedReplacement, sourceEditsCopy, Option.ite_none_right_eq_some] at copied
    exact (Option.some.inj copied.2).symm
  | owned pointer =>
    cases pointer with
    | none => cases given
    | some owned => exact Option.some.inj (copied.symm.trans given)

theorem run_cases (call : InsertCall) (edits : Option SourceEdits) :
    ((call.run edits).outSupported ≠ some true ∧ (call.run edits).edits = edits ∧
        (call.run edits).ownedReplacement = call.ownedReplacement) ∨
      ∃ list room, edits = some list ∧ call.Valid ∧
        sourceEditsNeighbourOverlap list.items (sourceEditsIndex list.items call.sourceStart)
          call.sourceStart call.sourceEnd = false ∧
        call.run edits = ⟨.ok (), some (sourceEditsStore list
            (sourceEditsIndex list.items call.sourceStart) call.edit room),
          call.ownedReplacement.map fun _ => none, some true⟩ := by
  have rejected : (call.outSupported.map fun _ => false) ≠ some true := by
    cases call.outSupported <;> simp
  rw [call.run_eq]
  unfold sourceEditsInsertInternal
  split
  next list text given =>
    split
    next => exact .inl ⟨rejected, rfl, rfl⟩
    next accepted =>
      dsimp only
      split
      next => exact .inl ⟨by simp, rfl, rfl⟩
      next apart =>
        split
        next copy room copied grown =>
          simp only [Bool.or_eq_true, not_or, decide_eq_true_eq, not_lt, beq_iff_eq,
            Option.isNone_iff_eq_none] at accepted
          obtain ⟨⟨supported, ordered⟩, length⟩ := accepted
          have valid : call.Valid :=
            ⟨by simp [given], Option.isSome_iff_ne_none.mpr supported, ordered, by simpa [given] using length⟩
          refine .inr ⟨list, room, rfl, valid, by simpa using apart, ?_⟩
          rw [InsertCall.edit, given, call.copy_eq given copied]
        next => exact .inl ⟨rejected, rfl, rfl⟩
  next => exact .inl ⟨rejected, rfl, rfl⟩

/-- With valid arguments and enough memory, the neighbours alone decide. -/
theorem run_of_valid {call : InsertCall} {edits : SourceEdits} (valid : call.Valid)
    (memory : call.EnoughMemory edits) :
    (call.run (some edits)).result = .ok () ∧
      ((call.run (some edits)).outSupported = some true ↔
        sourceEditsNeighbourOverlap edits.items (sourceEditsIndex edits.items call.sourceStart)
          call.sourceStart call.sourceEnd = false) := by
  obtain ⟨text, given⟩ := Option.isSome_iff_exists.mp valid.text
  obtain ⟨room, grown⟩ := Option.isSome_iff_exists.mp memory.growth
  have lengthOk := valid.length text (by simp [given])
  have supported := Option.isSome_iff_ne_none.mp valid.outSupported
  have copied : ∃ copy, sourceEditsCopy call.memory text call.ownedReplacement = some copy := by
    obtain ⟨memory, sourceStart, sourceEnd, replacement, outSupported⟩ := call
    cases replacement with
    | borrowed borrowed => exact ⟨text, if_pos (memory.copy rfl)⟩
    | owned pointer =>
      cases pointer with
      | none => cases given
      | some owned => exact ⟨text, given⟩
  obtain ⟨copy, copied⟩ := copied
  rw [call.run_eq, given]
  unfold sourceEditsInsertInternal
  dsimp only
  rw [if_neg (by simp [supported, valid.ordered, lengthOk])]
  split
  next overlap => simp [overlap]
  next apart =>
    rw [copied, grown]
    simpa using apart

/-! ## The chain invariant -/

def SourceEdit.span (edit : SourceEdit) : Span Nat :=
  ⟨edit.sourceStart, edit.sourceEnd⟩

/-- The edits are well-formed and each one ends before the next one starts. -/
structure EditChain (items : List SourceEdit) : Prop where
  proper : ∀ edit ∈ items, edit.span.Proper
  sorted : items.Pairwise (fun left right => Before left.span right.span)

theorem overlap_iff (left : SourceEdit) (rightStart rightEnd : Nat) :
    sourceEditsOverlap left rightStart rightEnd = true ↔ Overlap left.span ⟨rightStart, rightEnd⟩ := by
  simp only [sourceEditsOverlap, Overlap, SourceEdit.span]
  by_cases leftEmpty : left.sourceStart = left.sourceEnd
  · simp [leftEmpty, and_comm]
  · by_cases rightEmpty : rightStart = rightEnd
    · simp [leftEmpty, rightEmpty]
    · simp [leftEmpty, rightEmpty]

theorem apart_iff (left : SourceEdit) (rightStart rightEnd : Nat) :
    sourceEditsOverlap left rightStart rightEnd = false ↔
      Before left.span ⟨rightStart, rightEnd⟩ ∨ Before ⟨rightStart, rightEnd⟩ left.span := by
  rw [← not_overlap_iff, ← overlap_iff, Bool.not_eq_true]

theorem EditChain.starts {items : List SourceEdit} (chain : EditChain items) :
    items.Pairwise (fun left right => left.sourceStart < right.sourceStart) :=
  chain.sorted.imp_of_mem fun leftMember _ first => first.start_lt (chain.proper _ leftMember)

theorem EditChain.canonical {items : List SourceEdit} (chain : EditChain items) :
    CanonicalEdits items := by
  refine ⟨chain.starts, chain.sorted.imp fun first => ?_⟩
  exact ⟨(apart_iff _ _ _).mpr (.inl first), (apart_iff _ _ _).mpr (.inr first)⟩

theorem takeWhile_splits {items : List SourceEdit}
    (starts : items.Pairwise (fun left right => left.sourceStart < right.sourceStart))
    (sourceStart : Nat) :
    ∃ left right, items = left ++ right ∧
      (items.takeWhile (fun edit => edit.sourceStart < sourceStart)).length = left.length ∧
      (∀ edit ∈ left, edit.sourceStart < sourceStart) ∧
      (∀ edit ∈ right, sourceStart ≤ edit.sourceStart) := by
  induction items with
  | nil => exact ⟨[], [], rfl, rfl, by simp, by simp⟩
  | cons head tail inductionHypothesis =>
    obtain ⟨headFirst, tailStarts⟩ := List.pairwise_cons.mp starts
    by_cases early : head.sourceStart < sourceStart
    · obtain ⟨left, right, equal, length, leftEarly, rightLate⟩ := inductionHypothesis tailStarts
      refine ⟨head :: left, right, by rw [equal, List.cons_append], ?_, ?_, rightLate⟩
      · simp [early, length]
      · simpa using ⟨early, leftEarly⟩
    · refine ⟨[], head :: tail, rfl, by simp [early], by simp, ?_⟩
      intro edit member
      cases member with
      | head => exact not_lt.mp early
      | tail _ member => exact (not_lt.mp early).trans (headFirst edit member).le

/-- The insertion point separates the earlier starts from the others. -/
theorem index_splits {items : List SourceEdit}
    (starts : items.Pairwise (fun left right => left.sourceStart < right.sourceStart))
    (sourceStart : Nat) :
    ∃ left right, items = left ++ right ∧ sourceEditsIndex items sourceStart = left.length ∧
      (∀ edit ∈ left, edit.sourceStart < sourceStart) ∧
      (∀ edit ∈ right, sourceStart ≤ edit.sourceStart) := by
  unfold sourceEditsIndex
  split
  next last isLast =>
    split
    next append =>
      obtain ⟨front, rfl⟩ := List.getLast?_eq_some_iff.mp isLast
      refine ⟨front ++ [last], [], by simp, rfl, ?_, by simp⟩
      intro edit member
      rw [List.pairwise_append] at starts
      rw [List.mem_append, List.mem_singleton] at member
      cases member with
      | inl member => exact (starts.2.2 edit member last (by simp)).trans append
      | inr equal => exact equal ▸ append
    next => exact takeWhile_splits starts sourceStart
  next noLast =>
    rw [List.getLast?_eq_none_iff] at noLast
    exact ⟨[], [], by simpa using noLast, by simp, by simp, by simp⟩

theorem any_eq_false_iff {α : Type*} (value : Option α) (test : α → Bool) :
    value.any test = false ↔ ∀ item ∈ value, test item = false := by
  cases value <;> simp

theorem neighbourOverlap_split (left right : List SourceEdit) (sourceStart sourceEnd : Nat) :
    sourceEditsNeighbourOverlap (left ++ right) left.length sourceStart sourceEnd = false ↔
      (∀ last ∈ left.getLast?, sourceEditsOverlap last sourceStart sourceEnd = false) ∧
        (∀ first ∈ right.head?, sourceEditsOverlap first sourceStart sourceEnd = false) := by
  have rightHead : (left ++ right)[left.length]? = right.head? := by
    rw [List.getElem?_append_right le_rfl, Nat.sub_self, List.head?_eq_getElem?]
  rw [sourceEditsNeighbourOverlap, rightHead, Bool.or_eq_false_iff, any_eq_false_iff]
  cases left with
  | nil => simp
  | cons head tail =>
    have leftLast : (head :: tail ++ right)[(head :: tail).length - 1]? = (head :: tail).getLast? := by
      rw [List.getElem?_append_left (by simp), List.getLast?_eq_getElem?]
    rw [leftLast, Bool.and_eq_false_iff, any_eq_false_iff]
    simp

theorem before_of_neighbours {left right : List SourceEdit} (chain : EditChain (left ++ right))
    {edit : SourceEdit} (proper : edit.span.Proper)
    (early : ∀ other ∈ left, other.sourceStart < edit.sourceStart)
    (late : ∀ other ∈ right, edit.sourceStart ≤ other.sourceStart)
    (neighbours : sourceEditsNeighbourOverlap (left ++ right) left.length edit.sourceStart
      edit.sourceEnd = false) :
    (∀ last ∈ left.getLast?, Before last.span edit.span) ∧
      (∀ first ∈ right.head?, Before edit.span first.span) := by
  obtain ⟨leftNeighbour, rightNeighbour⟩ := (neighbourOverlap_split _ _ _ _).mp neighbours
  constructor
  · intro last isLast
    exact before_of_start_lt proper ((apart_iff _ _ _).mp (leftNeighbour last isLast))
      (early last (List.mem_of_getLast? isLast))
  · intro first isFirst
    have member := List.mem_of_mem_head? isFirst
    exact before_of_start_le (chain.proper first (List.mem_append_right _ member))
      ((apart_iff _ _ _).mp (rightNeighbour first isFirst)).symm (late first member)

/-- A chain stays a chain when the new edit is apart from its two neighbours. -/
theorem EditChain.insert {items : List SourceEdit} (chain : EditChain items) {edit : SourceEdit}
    (proper : edit.span.Proper)
    (neighbours : sourceEditsNeighbourOverlap items (sourceEditsIndex items edit.sourceStart)
      edit.sourceStart edit.sourceEnd = false) :
    EditChain (items.take (sourceEditsIndex items edit.sourceStart) ++
      edit :: items.drop (sourceEditsIndex items edit.sourceStart)) := by
  obtain ⟨left, right, rfl, index, early, late⟩ := index_splits chain.starts edit.sourceStart
  rw [index] at neighbours ⊢
  obtain ⟨leftBefore, rightBefore⟩ := before_of_neighbours chain proper early late neighbours
  rw [List.take_left, List.drop_left]
  refine ⟨?_, pairwise_insert (fun middle member _ _ => Before.trans (chain.proper middle member))
    chain.sorted leftBefore rightBefore⟩
  intro other member
  simp only [List.mem_append, List.mem_cons] at member
  obtain member | rfl | member := member
  · exact chain.proper other (List.mem_append_left _ member)
  · exact proper
  · exact chain.proper other (List.mem_append_right _ member)

/-- Comparing with the two neighbours compares with every edit of a chain. -/
theorem neighbourOverlap_complete {items : List SourceEdit} (chain : EditChain items)
    {edit : SourceEdit} (proper : edit.span.Proper) :
    sourceEditsNeighbourOverlap items (sourceEditsIndex items edit.sourceStart) edit.sourceStart
        edit.sourceEnd = false ↔
      ∀ other ∈ items, sourceEditsOverlap other edit.sourceStart edit.sourceEnd = false := by
  constructor
  · intro neighbours other member
    have inserted := (chain.insert proper neighbours).sorted
    rw [apart_iff]
    rw [← List.take_append_drop (sourceEditsIndex items edit.sourceStart) items,
      List.mem_append] at member
    rw [List.pairwise_append, List.pairwise_cons] at inserted
    cases member with
    | inl member => exact .inl (inserted.2.2 other member edit List.mem_cons_self)
    | inr member => exact .inr (inserted.2.1.1 other member)
  · intro apart
    obtain ⟨left, right, rfl, index, -, -⟩ := index_splits chain.starts edit.sourceStart
    rw [index, neighbourOverlap_split]
    exact ⟨fun last isLast => apart last (List.mem_append_left _ (List.mem_of_getLast? isLast)),
      fun first isFirst => apart first (List.mem_append_right _ (List.mem_of_mem_head? isFirst))⟩

/-! ## Runs of calls -/

theorem InsertCall.Valid.proper {call : InsertCall} (valid : call.Valid) : call.edit.span.Proper :=
  valid.ordered

theorem run_chain (call : InsertCall) {edits : SourceEdits} (chain : EditChain edits.items) :
    EditChain ((call.run (some edits)).edits.getD edits).items := by
  obtain ⟨-, same, -⟩ | ⟨list, room, equal, valid, neighbours, outcome⟩ := run_cases call (some edits)
  · rw [same]
    exact chain
  · cases equal
    rw [outcome]
    exact chain.insert valid.proper neighbours

theorem insertAll_chain (calls : List InsertCall) {edits : SourceEdits}
    (chain : EditChain edits.items) : EditChain (insertAll edits calls).items := by
  induction calls generalizing edits with
  | nil => exact chain
  | cons call calls inductionHypothesis => exact inductionHypothesis (run_chain call chain)

theorem empty_chain : EditChain SourceEdits.empty.items :=
  ⟨fun _ member => absurd member List.not_mem_nil, List.Pairwise.nil⟩

theorem run_unchanged (call : InsertCall) (edits : Option SourceEdits)
    (unsupported : (call.run edits).outSupported ≠ some true) :
    (call.run edits).edits = edits ∧ (call.run edits).ownedReplacement = call.ownedReplacement := by
  obtain ⟨-, same⟩ | ⟨list, room, -, -, -, outcome⟩ := run_cases call edits
  · exact same
  · rw [outcome] at unsupported
    exact absurd rfl unsupported

theorem run_error_unsupported (call : InsertCall) (edits : Option SourceEdits) {error : Error}
    (failed : (call.run edits).result = .error error) : (call.run edits).outSupported ≠ some true := by
  obtain ⟨unsupported, -⟩ | ⟨list, room, -, -, -, outcome⟩ := run_cases call edits
  · exact unsupported
  · rw [outcome] at failed
    cases failed

theorem run_supported_iff {call : InsertCall} {edits : SourceEdits} (chain : EditChain edits.items)
    (valid : call.Valid) (memory : call.EnoughMemory edits) :
    (call.run (some edits)).outSupported = some true ↔
      ∀ edit ∈ edits.items, sourceEditsOverlap edit call.sourceStart call.sourceEnd = false := by
  rw [(run_of_valid valid memory).2]
  exact neighbourOverlap_complete chain valid.proper

theorem apart_symm {left right : SourceEdit}
    (apart : sourceEditsOverlap left right.sourceStart right.sourceEnd = false) :
    sourceEditsOverlap right left.sourceStart left.sourceEnd = false :=
  (apart_iff _ _ _).mpr ((apart_iff _ _ _).mp apart).symm

theorem store_perm (edits : SourceEdits) (index : Nat) (edit : SourceEdit) (room : Room edits)
    (later : List SourceEdit) :
    ((sourceEditsStore edits index edit room).items ++ later).Perm
      (edits.items ++ edit :: later) := by
  have stored : (sourceEditsStore edits index edit room).items.Perm (edit :: edits.items) := by
    have middle : (edits.items.take index ++ edit :: edits.items.drop index).Perm
        (edit :: (edits.items.take index ++ edits.items.drop index)) := List.perm_middle
    rwa [List.take_append_drop] at middle
  exact (stored.append_right later).trans List.perm_middle.symm

/-- A supported call stores its edit among those that were stored. -/
theorem run_stores (edits : Option SourceEdits) (call : InsertCall)
    (supported : (call.run edits).outSupported = some true) :
    (call.run edits).result = .ok () ∧
      ∃ stored next, edits = some stored ∧ (call.run edits).edits = some next ∧
        next.items.Perm (call.edit :: stored.items) := by
  obtain ⟨unsupported, -⟩ | ⟨stored, room, equal, -, -, outcome⟩ := run_cases call edits
  · exact absurd supported unsupported
  · rw [outcome]
    have perm := store_perm stored (sourceEditsIndex stored.items call.sourceStart) call.edit room []
    rw [List.append_nil] at perm
    exact ⟨rfl, stored, _, equal, rfl, perm.trans (List.perm_append_singleton call.edit stored.items)⟩

/-- Apart edits are all stored, so the array is a permutation of them. -/
theorem insertAll_perm {calls : List InsertCall} {edits : SourceEdits}
    (chain : EditChain edits.items) (valid : ∀ call ∈ calls, call.Valid)
    (apart : (edits.items ++ calls.map InsertCall.edit).Pairwise (fun left right =>
      sourceEditsOverlap left right.sourceStart right.sourceEnd = false))
    (memory : EnoughMemoryAlong edits calls) :
    (insertAll edits calls).items.Perm (edits.items ++ calls.map InsertCall.edit) := by
  induction calls generalizing edits with
  | nil => simp [insertAll]
  | cons call calls inductionHypothesis =>
    have callValid := valid call List.mem_cons_self
    have nextChain := run_chain call chain
    have supported := (run_supported_iff chain callValid memory.1).mpr (fun other member =>
      (List.pairwise_append.mp apart).2.2 other member call.edit List.mem_cons_self)
    obtain ⟨unsupported, -⟩ | ⟨list, room, equal, -, neighbours, outcome⟩ := run_cases call (some edits)
    · exact absurd supported unsupported
    · cases equal
      rw [insertAll]
      have memoryRest := memory.2
      rw [outcome] at nextChain memoryRest ⊢
      have perm := store_perm edits (sourceEditsIndex edits.items call.sourceStart) call.edit room
        (calls.map InsertCall.edit)
      exact (inductionHypothesis nextChain
        (fun other member => valid other (List.mem_cons_of_mem _ member))
        (apart.perm perm.symm apart_symm) memoryRest).trans perm

/-! ## The set is canonical -/

end SqlParser.Core
