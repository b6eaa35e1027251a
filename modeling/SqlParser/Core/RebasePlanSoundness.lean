import SqlParser.Core.RebasePlanCoordinates

/-! # Soundness of the rebase plan

In a tree no two integers share a slot, so that every coordinate is written at most once and takes
its own image, and nothing else is written. The spans of the statements stay in order, and the new
text of each is its old text with its own edits.
-/

namespace SqlParser.Core

open SqlParser.Protobuf
open SqlParser.Library.Splice

/-! ## The slots of the coordinates -/

theorem spanCoordinates_slots (type : MessageType) (fields : Fields) :
    spanCoordinates type fields = [] ∨ ∃ location length, spanCoordinates type fields = [location, length] ∧
      (ascii "stmt_location", location.slot) ∈ fields.namedSlots ∧ (ascii "stmt_len", length.slot) ∈ fields.namedSlots := by
  unfold spanCoordinates statementSpan
  split
  next =>
    cases foundLocation : fields.int32 (ascii "stmt_location") with
    | none => exact .inl rfl
    | some location =>
      cases foundLength : fields.int32 (ascii "stmt_len") with
      | none => exact .inl rfl
      | some length =>
        exact .inr ⟨_, _, rfl, Fields.int32_named fields foundLocation, Fields.int32_named fields foundLength⟩
  next => exact .inl rfl

/-- The slots of the locations are slots of fields with the name of a location. -/
theorem locationCoordinates_slots (type : MessageType) (quantifier : Nat → Nat) (all fields : Fields) :
    ((locationCoordinates type quantifier all fields).map Coordinate.slot).Sublist
      ((fields.namedSlots.filter fun named => isLocationName named.1).map Prod.snd) := by
  cases fields with
  | nil => exact .refl _
  | cons field value rest =>
    have behind := locationCoordinates_slots type quantifier all rest
    rw [locationCoordinates, List.map_append]
    cases value with
    | int32 slot point =>
      rw [Fields.namedSlots, List.filter_cons]
      by_cases taken : (walksField type quantifier field ∧ rebaseFieldActive quantifier all field = some true) ∧
          field.type = .int32 ∧ isLocationName field.name
      · rw [if_pos taken.1, fieldCoordinates, if_pos taken.2, if_pos taken.2.2]
        exact behind.cons_cons slot
      · have nothing : (if walksField type quantifier field ∧ rebaseFieldActive quantifier all field = some true then
            fieldCoordinates field (.int32 slot point) else []) = [] := by
          rw [fieldCoordinates]
          split_ifs with walked location
          · exact absurd ⟨walked, location⟩ taken
          · rfl
          · rfl
        rw [nothing]
        split
        next => exact behind.trans ((List.sublist_cons_self _ _).map _)
        next => exact behind
    | string | other | absent | child | items | missingItems =>
      simp only [fieldCoordinates, ite_self, List.map_nil, List.nil_append]
      exact behind

/-- The coordinates of a message itself have slots of their own. -/
theorem ownCoordinates_slots (type : MessageType) (quantifier : Nat → Nat) (fields : Fields)
    (distinct : (fields.namedSlots.map Prod.snd).Nodup) :
    ((spanCoordinates type fields ++ locationCoordinates type quantifier fields fields).map Coordinate.slot).Nodup ∧
      ∀ coordinate ∈ spanCoordinates type fields ++ locationCoordinates type quantifier fields fields,
        coordinate.slot ∈ fields.namedSlots.map Prod.snd := by
  have locations := locationCoordinates_slots type quantifier fields fields
  have locationsDistinct := locations.nodup (distinct.sublist (List.filter_sublist.map Prod.snd))
  have locationsNamed : ∀ slot ∈ (locationCoordinates type quantifier fields fields).map Coordinate.slot,
      ∃ name, isLocationName name = true ∧ (name, slot) ∈ fields.namedSlots := by
    intro slot member
    obtain ⟨⟨name, _⟩, held, rfl⟩ := List.mem_map.mp (locations.subset member)
    exact ⟨name, (List.mem_filter.mp held).2, (List.mem_filter.mp held).1⟩
  -- One slot has one name.
  have sameName {left right : Text} {slot : Nat} (first : (left, slot) ∈ fields.namedSlots)
      (second : (right, slot) ∈ fields.namedSlots) : left = right :=
    congrArg Prod.fst (List.inj_on_of_nodup_map distinct first second rfl)
  cases spanCoordinates_slots type fields with
  | inl none =>
    rw [none, List.nil_append]
    apply And.intro locationsDistinct
    intro coordinate member
    obtain ⟨name, -, held⟩ := locationsNamed _ (List.mem_map_of_mem member)
    exact List.mem_map_of_mem held
  | inr both =>
    obtain ⟨location, length, both, locationNamed, lengthNamed⟩ := both
    have separate (name : Text) (slot : Nat) (named : (name, slot) ∈ fields.namedSlots)
        (other : isLocationName name = false) :
        slot ∉ (locationCoordinates type quantifier fields fields).map Coordinate.slot := by
      intro member
      obtain ⟨found, isLocation, held⟩ := locationsNamed slot member
      rw [sameName held named, other] at isLocation
      cases isLocation
    rw [both]
    constructor
    · simp only [List.cons_append, List.nil_append, List.map_cons, List.nodup_cons, List.mem_cons, not_or]
      refine ⟨⟨?_, separate _ _ locationNamed rfl⟩, separate _ _ lengthNamed rfl, locationsDistinct⟩
      intro same
      rw [same] at locationNamed
      exact absurd (sameName locationNamed lengthNamed) (by decide)
    · intro coordinate member
      simp only [List.cons_append, List.nil_append, List.mem_cons] at member
      obtain rfl | rfl | member := member
      · exact List.mem_map_of_mem locationNamed
      · exact List.mem_map_of_mem lengthNamed
      · obtain ⟨name, -, held⟩ := locationsNamed _ (List.mem_map_of_mem member)
        exact List.mem_map_of_mem held

/-- The slots of some coordinates are distinct and among those of a part of the tree. -/
structure CoordinateSlots (coordinates : List Coordinate) (slots : List Nat) : Prop where
  distinct : (coordinates.map Coordinate.slot).Nodup
  within : ∀ slot ∈ coordinates.map Coordinate.slot, slot ∈ slots

theorem CoordinateSlots.nil (slots : List Nat) : CoordinateSlots [] slots :=
  ⟨List.nodup_nil, fun _ member => absurd member List.not_mem_nil⟩

theorem CoordinateSlots.append {left right : List Coordinate} (leftSlots : List Nat) {rightSlots : List Nat}
    (first : CoordinateSlots left leftSlots) (second : CoordinateSlots right rightSlots)
    (apart : leftSlots.Disjoint rightSlots) : CoordinateSlots (left ++ right) (leftSlots ++ rightSlots) := by
  constructor
  · rw [List.map_append, List.nodup_append']
    exact ⟨first.distinct, second.distinct, fun slot inLeft inRight =>
      apart (first.within slot inLeft) (second.within slot inRight)⟩
  · intro slot member
    rw [List.map_append, List.mem_append] at member
    rw [List.mem_append]
    exact member.imp (first.within slot) (second.within slot)

mutual

theorem messageCoordinates_slots (message : Protobuf.Message) (distinct : message.slots.Nodup) :
    CoordinateSlots (messageCoordinates message) message.slots := by
  cases message with
  | mk type unknownFields quantifier fields =>
    rw [Protobuf.Message.slots] at distinct ⊢
    have split := distinct
    rw [fields.slots_perm.nodup_iff, List.nodup_append'] at split
    obtain ⟨ownDistinct, childDistinct, apart⟩ := split
    obtain ⟨own, ownWithin⟩ := ownCoordinates_slots type quantifier fields ownDistinct
    have children := childCoordinates_slots type quantifier fields fields childDistinct
    have both := CoordinateSlots.append (fields.namedSlots.map Prod.snd)
      ⟨own, fun slot member => by
        obtain ⟨coordinate, held, rfl⟩ := List.mem_map.mp member
        exact ownWithin coordinate held⟩ children apart
    rw [messageCoordinates]
    exact ⟨both.distinct, fun slot member => fields.slots_perm.mem_iff.mpr (both.within slot member)⟩

theorem childCoordinates_slots (type : MessageType) (quantifier : Nat → Nat) (all fields : Fields)
    (distinct : fields.childSlots.Nodup) :
    CoordinateSlots (childCoordinates type quantifier all fields) fields.childSlots := by
  cases fields with
  | nil => exact .nil _
  | cons field value rest =>
    have nested (slots : List Nat) (held : CoordinateSlots (valueCoordinates value) slots)
        (distinct : (slots ++ rest.childSlots).Nodup) :
        CoordinateSlots (childCoordinates type quantifier all (.cons field value rest)) (slots ++ rest.childSlots) := by
      rw [List.nodup_append'] at distinct
      have behind := childCoordinates_slots type quantifier all rest distinct.2.1
      rw [childCoordinates]
      split
      next => exact held.append _ behind distinct.2.2
      next => exact (CoordinateSlots.nil slots).append _ behind distinct.2.2
    cases value with
    | int32 slot number => exact nested [] (.nil _) distinct
    | string | other | absent | missingItems => exact nested [] (.nil _) distinct
    | child message =>
      exact nested _ (messageCoordinates_slots message (List.nodup_append'.mp distinct).1) distinct
    | items messages =>
      exact nested _ (itemCoordinates_slots messages (List.nodup_append'.mp distinct).1) distinct

theorem itemCoordinates_slots (messages : Messages) (distinct : messages.slots.Nodup) :
    CoordinateSlots (itemCoordinates messages) messages.slots := by
  cases messages with
  | nil => exact .nil _
  | null rest => exact itemCoordinates_slots rest distinct
  | cons message rest =>
    rw [Messages.slots, List.nodup_append'] at distinct
    exact (messageCoordinates_slots message distinct.1).append _ (itemCoordinates_slots rest distinct.2.1) distinct.2.2

end

/-! ## The writes of a plan -/

/-- What a plan makes of the value of a slot. -/
def planValue (plan : List (Nat × Int)) (slot : Nat) (value : Int) : Int :=
  plan.foldl (fun value write => writeSlot write slot value) value

theorem PgQueryParseResult.mapSlots_mapSlots (first second : Nat → Int → Int) (ast : PgQueryParseResult) :
    (ast.mapSlots first).mapSlots second = ast.mapSlots fun slot value => second slot (first slot value) := by
  simp only [PgQueryParseResult.mapSlots, Option.map_map, Function.comp_def, Messages.mapSlots_mapSlots]

theorem PgQueryParseResult.mapSlots_id (ast : PgQueryParseResult) : ast.mapSlots (fun _ value => value) = ast := by
  have same : Messages.mapSlots (fun _ value => value) = id := funext Messages.mapSlots_id
  simp only [PgQueryParseResult.mapSlots, same, Option.map_id, id]

theorem apply_eq_mapSlots (plan : List (Nat × Int)) (ast : PgQueryParseResult) :
    astRebasePlanApply plan ast = ast.mapSlots (planValue plan) := by
  induction plan generalizing ast with
  | nil => exact (PgQueryParseResult.mapSlots_id ast).symm
  | cons write plan inductionHypothesis =>
    have rest := inductionHypothesis (ast.mapSlots (writeSlot write))
    rw [PgQueryParseResult.mapSlots_mapSlots] at rest
    exact rest

theorem planValue_of_not_mem {plan : List (Nat × Int)} {slot : Nat} (absent : slot ∉ plan.map Prod.fst) (value : Int) :
    planValue plan slot value = value := by
  induction plan generalizing value with
  | nil => rfl
  | cons write plan inductionHypothesis =>
    simp only [List.map_cons, List.mem_cons, not_or] at absent
    have rest := inductionHypothesis absent.2 (writeSlot write slot value)
    rw [writeSlot, if_neg absent.1] at rest
    simpa [planValue, writeSlot, absent.1] using rest

theorem planValue_of_mem {plan : List (Nat × Int)} {slot : Nat} {new : Int} (distinct : (plan.map Prod.fst).Nodup)
    (member : (slot, new) ∈ plan) (value : Int) : planValue plan slot value = new := by
  induction plan generalizing value with
  | nil => cases member
  | cons write plan inductionHypothesis =>
    rw [List.map_cons, List.nodup_cons] at distinct
    cases member with
    | head =>
      have rest := planValue_of_not_mem distinct.1 (writeSlot (slot, new) slot value)
      exact rest.trans (if_pos rfl)
    | tail _ member => exact inductionHypothesis distinct.2 member (writeSlot write slot value)

theorem write_slot {image : Nat → Option Int} {coordinate : Coordinate} {write : Nat × Int}
    (moves : coordinate.write image = some write) : write.1 = coordinate.slot := by
  obtain ⟨new, -, moves⟩ := Option.bind_eq_some_iff.mp moves
  split_ifs at moves
  cases moves
  rfl

theorem writes_slots (image : Nat → Option Int) (coordinates : List Coordinate) :
    ((coordinates.filterMap (Coordinate.write image)).map Prod.fst).Sublist (coordinates.map Coordinate.slot) := by
  induction coordinates with
  | nil => exact .refl _
  | cons coordinate coordinates inductionHypothesis =>
    rw [List.filterMap_cons]
    split
    next => exact inductionHypothesis.cons _
    next write moves =>
      rw [List.map_cons, List.map_cons, write_slot moves]
      exact inductionHypothesis.cons_cons _

/-- The writes of distinct coordinates give each of them its image. -/
theorem planValue_coordinate {image : Nat → Option Int} {coordinates : List Coordinate}
    (distinct : (coordinates.map Coordinate.slot).Nodup)
    (images : ∀ coordinate ∈ coordinates, (coordinate.rebased image).isSome) {coordinate : Coordinate}
    (member : coordinate ∈ coordinates) :
    coordinate.rebased image =
      some (planValue (coordinates.filterMap (Coordinate.write image)) coordinate.slot coordinate.value) := by
  obtain ⟨new, rebased⟩ := Option.isSome_iff_exists.mp (images coordinate member)
  have planDistinct := (writes_slots image coordinates).nodup distinct
  have write : coordinate.write image = if coordinate.value = new then none else some (coordinate.slot, new) := by
    rw [Coordinate.write, rebased, Option.bind_some]
  rw [rebased]
  congr 1
  by_cases moves : coordinate.value = new
  · -- The only coordinate with this slot does not move.
    rw [if_pos moves] at write
    rw [planValue_of_not_mem, moves]
    intro written
    obtain ⟨entry, entryMember, same⟩ := List.mem_map.mp written
    obtain ⟨other, otherMember, otherWrite⟩ := List.mem_filterMap.mp entryMember
    rw [write_slot otherWrite] at same
    rw [List.inj_on_of_nodup_map distinct otherMember member same, write] at otherWrite
    cases otherWrite
  · rw [if_neg moves] at write
    exact (planValue_of_mem planDistinct (List.mem_filterMap.mpr ⟨coordinate, member, write⟩) _).symm

/-! ## Statement spans -/

/-- The spans stand in order within the source, and the last one alone may have no length. -/
def SpansOrdered (sourceLength : Nat) : Nat → List (Int × Int) → Prop
  | _, [] => True
  | previousEnd, (location, length) :: spans =>
    (previousEnd : Int) ≤ location ∧ 0 ≤ length ∧ location + length ≤ sourceLength ∧ (length = 0 → spans = []) ∧
      SpansOrdered sourceLength (statementEnd sourceLength location length) spans

theorem statementSpansValidFrom_ordered {oldLength previousEnd : Nat} {edits : List SourceEdit} {spans : List (Int × Int)}
    (valid : statementSpansValidFrom oldLength previousEnd edits spans = true) :
    SpansOrdered oldLength previousEnd spans := by
  induction spans generalizing previousEnd edits with
  | nil => trivial
  | cons span spans inductionHypothesis =>
    obtain ⟨location, length⟩ := span
    rw [statementSpansValidFrom] at valid
    split_ifs at valid with negative outside early
    split at valid
    next => cases valid
    next behind editsBehind =>
      simp only [not_or, not_lt, not_and, not_not, gt_iff_lt] at negative outside early
      exact ⟨by omega, negative.2, by omega, early, inductionHypothesis valid⟩

/-- The span of a statement behind the edits. -/
def RebasedSpan (image : Nat → Option Int) (span new : Int × Int) : Prop :=
  (Coordinate.location 0 span.1).rebased image = some new.1 ∧
    (Coordinate.length 0 span.1 span.2).rebased image = some new.2

theorem rawStatementSpans_mapSlots {image : Nat → Option Int} {change : Nat → Int → Int} (messages : Messages)
    {spans : List (Int × Int)} (found : rawStatementSpans messages = some spans)
    (moved : ∀ coordinate ∈ itemCoordinates messages,
      coordinate.rebased image = some (change coordinate.slot coordinate.value)) :
    ∃ new, rawStatementSpans (messages.mapSlots change) = some new ∧ List.Forall₂ (RebasedSpan image) spans new := by
  cases messages with
  | nil =>
    cases found
    exact ⟨[], rfl, .nil⟩
  | null rest => cases found
  | cons raw rest =>
    rw [rawStatementSpans] at found
    split_ifs at found with refused
    split at found
    next span behind spanFound behindFound =>
      cases found
      simp only [itemCoordinates, List.mem_append] at moved
      obtain ⟨newBehind, newFound, related⟩ := rawStatementSpans_mapSlots rest behindFound
        fun coordinate member => moved coordinate (.inr member)
      cases raw with
      | mk type unknownFields quantifier fields =>
        simp only [Protobuf.Message.type, Protobuf.Message.fields, not_or, not_not] at refused spanFound
        have own : spanCoordinates type fields =
            [.location span.locationSlot span.location, .length span.lengthSlot span.location span.length] := by
          have statement : isStatement .rawStmt = true := rfl
          rw [spanCoordinates, refused.1, if_pos statement, spanFound]
        have member {coordinate : Coordinate} (held : coordinate ∈ spanCoordinates type fields) :
            coordinate ∈ messageCoordinates (.mk type unknownFields quantifier fields) := by
          rw [messageCoordinates]
          exact List.mem_append_left _ (List.mem_append_left _ held)
        have location := moved (.location span.locationSlot span.location) (.inl (member (by simp [own])))
        have length := moved (.length span.lengthSlot span.location span.length) (.inl (member (by simp [own])))
        have newSpan : statementSpan (fields.mapSlots change) =
            some ⟨span.locationSlot, change span.locationSlot span.location, span.lengthSlot,
              change span.lengthSlot span.length⟩ := by
          unfold statementSpan at spanFound ⊢
          split at spanFound
          next locationFound lengthFound =>
            cases spanFound
            rw [Fields.int32_mapSlots, Fields.int32_mapSlots, locationFound, lengthFound]
            rfl
          next => cases spanFound
        have present : ((fields.mapSlots change).message (ascii "stmt")).isNone = false := by
          rw [Fields.message_mapSlots, Option.isNone_map]
          exact Bool.eq_false_iff.mpr refused.2
        refine ⟨(change span.locationSlot span.location, change span.lengthSlot span.length) :: newBehind, ?_, .cons ⟨location, length⟩ related⟩
        simp only [Messages.mapSlots, Protobuf.Message.mapSlots, rawStatementSpans, Protobuf.Message.type, Protobuf.Message.fields, refused.1,
          present, newSpan, newFound, ne_eq, not_true_eq_false, Bool.false_eq_true, or_self, if_false,
          Coordinate.slot, Coordinate.value]
    next => cases found

section Certified

variable {edits : List SourceEdit} {oldLength newLength : Nat}

theorem image_cases {point : Nat} {value : Int} (certified : CertifiedEdits edits oldLength newLength)
    (image : rebasedPoint edits oldLength point = some value) :
    ¬ Inside (edits.map SourceEdit.spliceEdit) point ∧
      value = point + shift (edits.map SourceEdit.spliceEdit) point ∧ 0 ≤ value ∧ value ≤ newLength := by
  obtain ⟨bound, outside, equal⟩ := (rebasedPoint_eq_some_iff certified.proper).mp image
  have bounds := @shifted_bounds ⟨edits, oldLength, newLength, 0, 0⟩ certified point bound outside
  exact ⟨outside, equal, equal ▸ bounds⟩

theorem image_lt {left right : Nat} {leftValue rightValue : Int} (certified : CertifiedEdits edits oldLength newLength)
    (leftImage : rebasedPoint edits oldLength left = some leftValue)
    (rightImage : rebasedPoint edits oldLength right = some rightValue) (less : left < right) : leftValue < rightValue := by
  obtain ⟨leftOutside, rfl, -⟩ := image_cases certified leftImage
  obtain ⟨rightOutside, rfl, -⟩ := image_cases certified rightImage
  exact shifted_lt_shifted certified.ordered (by simpa [SourceEdit.spliceEdit] using certified.nonempty) less
    (Nat.zero_le _) leftOutside rightOutside

theorem image_le {left right : Nat} {leftValue rightValue : Int} (certified : CertifiedEdits edits oldLength newLength)
    (leftImage : rebasedPoint edits oldLength left = some leftValue)
    (rightImage : rebasedPoint edits oldLength right = some rightValue) (less : left ≤ right) : leftValue ≤ rightValue := by
  obtain same | less := less.eq_or_lt
  · rw [same, rightImage] at leftImage
    cases leftImage
    exact le_rfl
  · exact (image_lt certified leftImage rightImage less).le

theorem image_end (certified : CertifiedEdits edits oldLength newLength) :
    rebasedPoint edits oldLength oldLength = some (newLength : Int) := by
  rw [rebasedPoint_eq_some certified.proper le_rfl]
  · rw [shift_eq_sum (by simpa using certified.within), ← rebaseEditDelta_map certified.proper, certified.lengths]
  · rintro ⟨_, mapped, -, behind⟩
    obtain ⟨edit, member, rfl⟩ := List.mem_map.mp mapped
    have := certified.within edit member
    simp only [spliceEdit_stop] at behind
    omega

/-- Both ends of the new span are the images of the ends of the old one. -/
theorem span_ends {location length newLocation newExtent : Int} (certified : CertifiedEdits edits oldLength newLength)
    (positive : 0 ≤ location) (proper : 0 ≤ length)
    (moved : RebasedSpan (rebasedPoint edits oldLength) (location, length) (newLocation, newExtent)) :
    rebasedPoint edits oldLength location.toNat = some newLocation ∧
      rebasedPoint edits oldLength (statementEnd oldLength location length) =
        some (statementEnd newLength newLocation newExtent : Int) ∧
      0 ≤ newLocation ∧ 0 ≤ newExtent ∧ (newExtent = 0 ↔ length = 0) := by
  obtain ⟨start, extent⟩ := moved
  rw [Coordinate.rebased, if_neg (not_lt.mpr positive)] at start
  rw [Coordinate.rebased] at extent
  have startBound := (image_cases certified start).2.2
  simp only at start startBound
  unfold statementEnd
  split at extent
  next empty =>
    have extent : newExtent = 0 := (Option.some.inj extent).symm
    simp only at empty
    rw [if_neg (not_not.mpr empty), if_neg (not_not.mpr extent)]
    exact ⟨start, image_end certified, startBound.1, extent.ge, iff_of_true extent empty⟩
  next long =>
    simp only at long extent
    split at extent
    next startValue stopValue startImage stopImage =>
      rw [start] at startImage
      cases startImage
      cases extent
      have less := image_lt certified start stopImage (by omega)
      rw [if_pos long, if_pos (by omega), stopImage]
      have stop : (newLocation.toNat + (stopValue - newLocation).toNat : Nat) = stopValue := by omega
      exact ⟨start, by rw [stop], startBound.1, by omega, iff_of_false (by omega) long⟩
    next => cases extent

/-- Images keep the order of the spans. -/
theorem SpansOrdered.rebased {previousEnd newPrevious : Nat} {spans new : List (Int × Int)}
    (certified : CertifiedEdits edits oldLength newLength) (ordered : SpansOrdered oldLength previousEnd spans)
    (previous : rebasedPoint edits oldLength previousEnd = some (newPrevious : Int))
    (related : List.Forall₂ (RebasedSpan (rebasedPoint edits oldLength)) spans new) :
    SpansOrdered newLength newPrevious new := by
  induction related generalizing previousEnd newPrevious with
  | nil => trivial
  | @cons span newSpan spans newSpans moved related inductionHypothesis =>
    obtain ⟨location, length⟩ := span
    obtain ⟨newLocation, newExtent⟩ := newSpan
    obtain ⟨behindPrevious, proper, -, final, rest⟩ := ordered
    obtain ⟨start, stop, newPositive, newProper, zero⟩ := span_ends certified (by omega) proper moved
    refine ⟨image_le certified previous start (by omega), newProper, ?_, ?_, inductionHypothesis rest stop⟩
    · have stopBound := (image_cases certified stop).2.2.2
      have startBound := (image_cases certified start).2.2.2
      unfold statementEnd at stopBound
      split at stopBound <;> omega
    · intro empty
      rw [final (zero.mp empty)] at related
      cases related
      rfl

/-- The text of a statement. -/
def statementText (text : Text) (span : Int × Int) : Text :=
  (text.take (statementEnd text.length span.1 span.2)).drop span.1.toNat

/-- The edits that stand in a statement. -/
def statementEdits (edits : List SourceEdit) (sourceLength : Nat) (span : Int × Int) : List SourceEdit :=
  edits.filter fun edit => span.1.toNat ≤ edit.sourceStart ∧ edit.sourceEnd ≤ statementEnd sourceLength span.1 span.2

/-- The text of a statement with its own edits. -/
def editedStatement (text : Text) (edits : List SourceEdit) (span : Int × Int) : Text :=
  splice (text.take (statementEnd text.length span.1 span.2)) span.1.toNat
    ((statementEdits edits text.length span).map SourceEdit.spliceEdit)

theorem statementText_rebased {span newSpan : Int × Int} {text : Text} (certified : CertifiedEdits edits oldLength newLength)
    (positive : 0 ≤ span.1) (proper : 0 ≤ span.2) (bound : span.1 + span.2 ≤ oldLength)
    (moved : RebasedSpan (rebasedPoint edits oldLength) span newSpan) (length : text.length = oldLength) :
    statementText (splicedText text edits) newSpan = editedStatement text edits span := by
  obtain ⟨start, stop, -⟩ := span_ends certified positive proper moved
  obtain ⟨startOutside, startImage, -⟩ := image_cases certified start
  obtain ⟨stopOutside, stopImage, -⟩ := image_cases certified stop
  have less : span.1.toNat ≤ statementEnd oldLength span.1 span.2 := by
    unfold statementEnd
    split <;> omega
  have inside : statementEnd oldLength span.1 span.2 ≤ text.length := by
    unfold statementEnd
    split <;> omega
  have slice := splice_slice text certified.ordered (by simpa using certified.proper) less inside startOutside stopOutside
  rw [← startImage, ← stopImage, Int.toNat_natCast] at slice
  rw [statementText, editedStatement, statementEdits, certified.splicedText_length length, length, splicedText, slice,
    List.filter_map]
  rfl

end Certified

/-! ## The plan as a whole -/

/-- A parse result that is a tree: no two of its integers share a slot. -/
structure OwnedTree where
  ast : PgQueryParseResult
  distinct : ast.message.slots.Nodup

/-- Every coordinate of a tree has moved to its image and every other integer is what it was. -/
def CoordinatesMoved (edits : List SourceEdit) (oldLength : Nat) (before after : PgQueryParseResult) : Prop :=
  ∃ change, after = before.mapSlots change ∧
    (∀ coordinate ∈ messageCoordinates before.message,
      coordinate.rebased (rebasedPoint edits oldLength) = some (change coordinate.slot coordinate.value)) ∧
    ∀ slot value, slot ∉ (messageCoordinates before.message).map Coordinate.slot → change slot value = value

/-- The statements stand in order in the new text, each with its own edits. -/
def StatementsMoved (edits : List SourceEdit) (oldLength newLength : Nat) (before after : PgQueryParseResult) : Prop :=
  ∃ spans newSpans, before.spans = some spans ∧ after.spans = some newSpans ∧ SpansOrdered newLength 0 newSpans ∧
    List.Forall₂ (fun span newSpan => (newSpan.2 = 0 ↔ span.2 = 0) ∧ ∀ text : Text, text.length = oldLength →
      statementText (splicedText text edits) newSpan = editedStatement text edits span) spans newSpans

theorem SpansOrdered.bounds {sourceLength previousEnd : Nat} {spans : List (Int × Int)}
    (ordered : SpansOrdered sourceLength previousEnd spans) :
    ∀ span ∈ spans, 0 ≤ span.1 ∧ 0 ≤ span.2 ∧ span.1 + span.2 ≤ sourceLength := by
  induction spans generalizing previousEnd with
  | nil => exact fun _ member => absurd member List.not_mem_nil
  | cons head spans inductionHypothesis =>
    obtain ⟨location, length⟩ := head
    obtain ⟨behindPrevious, proper, bound, -, rest⟩ := ordered
    intro span member
    cases member with
    | head => exact ⟨by simp only; omega, proper, bound⟩
    | tail _ member => exact inductionHypothesis rest span member

theorem PgQueryParseResult.coordinates (ast : PgQueryParseResult) {stmts : Messages} (held : ast.stmts = some stmts) :
    messageCoordinates ast.message = itemCoordinates stmts := by
  have version : isLocationName (ascii "version") = false := rfl
  simp [PgQueryParseResult.message, messageCoordinates, spanCoordinates, isStatement, locationCoordinates,
    childCoordinates, fieldCoordinates, PgQueryParseResult.versionDescriptor, PgQueryParseResult.stmtsDescriptor,
    PgQueryParseResult.stmtsValue, held, walksField, rebaseFieldActive, valueCoordinates, version]

theorem statements_moved {edits : SourceEdits} {oldLength newLength : Nat} {before after : PgQueryParseResult}
    (certified : CertifiedEdits edits.items oldLength newLength)
    (valid : statementSpansValid before edits oldLength = true)
    (moved : CoordinatesMoved edits.items oldLength before after) :
    StatementsMoved edits.items oldLength newLength before after := by
  obtain ⟨change, rfl, images, -⟩ := moved
  unfold statementSpansValid at valid
  split at valid
  next => cases valid
  next spans found =>
    rw [Bool.and_eq_true] at valid
    obtain ⟨stmts, held, rawSpans⟩ := Option.bind_eq_some_iff.mp found
    rw [before.coordinates held] at images
    obtain ⟨newSpans, newFound, related⟩ := rawStatementSpans_mapSlots stmts rawSpans images
    have ordered := statementSpansValidFrom_ordered valid.2
    have newHeld : (before.mapSlots change).spans = some newSpans := by
      rw [PgQueryParseResult.spans, PgQueryParseResult.mapSlots, held]
      exact newFound
    refine ⟨spans, newSpans, found, newHeld, ordered.rebased certified (image_zero certified) related, ?_⟩
    apply ((List.forall₂_and_left _ _).mpr ⟨ordered.bounds, related⟩).imp
    rintro span newSpan ⟨⟨positive, proper, bound⟩, spanMoved⟩
    obtain ⟨-, -, -, -, zero⟩ := span_ends certified positive proper spanMoved
    exact ⟨zero, fun text length => statementText_rebased certified positive proper bound spanMoved length⟩

theorem initial_reads {σ : Type} (edits : SourceEdits) (oldLength newLength : Nat) (literals : σ) :
    (RebaseState.initial edits oldLength newLength literals).context.Reads edits.items oldLength newLength :=
  ⟨rfl, rfl, rfl, ⟨Nat.zero_le _, by simp [RebaseState.initial, rebaseContext]⟩⟩

/-- A build that fails leaves the tree, and one that succeeds writes no slot twice: every coordinate
moves to its image, nothing else changes, and the statements keep their order and their own edits. -/
theorem rebase_all_or_nothing {σ : Type} (calls : RebaseCalls σ) (literals : σ) (tree : OwnedTree)
    (edits : Option SourceEdits) (oldLength newLength : Nat) :
    (astRebasePlanBuild calls literals tree.ast edits oldLength newLength = none →
      astRebase calls literals tree.ast edits oldLength newLength = (tree.ast, false)) ∧
    ∀ plan kept, astRebasePlanBuild calls literals tree.ast edits oldLength newLength = some (plan, kept) →
      ∃ items after, edits = some items ∧ astRebase calls literals tree.ast edits oldLength newLength = (after, true) ∧
        after = astRebasePlanApply plan tree.ast ∧ (plan.map Prod.fst).Nodup ∧
        ((messageCoordinates tree.ast.message).map Coordinate.slot).Nodup ∧
        CoordinatesMoved items.items oldLength tree.ast after ∧
        StatementsMoved items.items oldLength newLength tree.ast after := by
  constructor
  · intro failed
    rw [astRebase, failed]
  · intro plan kept built
    have rebased : astRebase calls literals tree.ast edits oldLength newLength =
        (astRebasePlanApply plan tree.ast, true) := by
      rw [astRebase, built]
    unfold astRebasePlanBuild at built
    split at built
    next => cases built
    next items =>
      split_ifs at built with valid
      obtain ⟨final, walked, equal⟩ := Option.map_eq_some_iff.mp built
      cases equal
      have certified := editsValid_certified valid.1
      have collected := rebaseMessage_collects tree.ast.message certified
        (initial_reads items oldLength newLength literals) walked
      have writes : final.writes = (messageCoordinates tree.ast.message).filterMap
          (Coordinate.write (rebasedPoint items.items oldLength)) := collected.writes
      have slots := messageCoordinates_slots tree.ast.message tree.distinct
      have planSlots := writes_slots (rebasedPoint items.items oldLength) (messageCoordinates tree.ast.message)
      have moved : CoordinatesMoved items.items oldLength tree.ast (astRebasePlanApply final.writes tree.ast) := by
        refine ⟨planValue final.writes, apply_eq_mapSlots final.writes tree.ast, ?_, ?_⟩
        · intro coordinate member
          rw [writes]
          exact planValue_coordinate slots.distinct collected.images member
        · intro slot value absent
          apply planValue_of_not_mem
          rw [writes]
          exact fun member => absent (planSlots.subset member)
      exact ⟨items, _, rfl, rebased, rfl, writes ▸ planSlots.nodup slots.distinct, slots.distinct, moved,
        statements_moved certified valid.2 moved⟩

/-- A statement `SELECT 'a'`, whose only node is its constant. -/
def literalTree : OwnedTree where
  ast := {
    unknownFields := 0
    quantifier := fun _ => 0
    versionSlot := 0
    version := 170000
    stmts := some (.cons (.mk .rawStmt 0 (fun _ => 0)
      (.cons ⟨ascii "stmt", 1, .none, .message, false, 0, .node⟩
        (.child (.mk .node 0 (fun _ => 5)
          (.cons ⟨ascii "a_const", 5, .none, .message, true, nodeCaseOffset, .aConst⟩
            (.child (.mk .aConst 0 (fun _ => 0)
              (.cons ⟨ascii "location", 11, .none, .int32, false, 0, .other 0⟩ (.int32 3 7) .nil)))
            .nil)))
        (.cons ⟨ascii "stmt_location", 2, .none, .int32, false, 0, .other 0⟩ (.int32 1 0)
          (.cons ⟨ascii "stmt_len", 3, .none, .int32, false, 0, .other 0⟩ (.int32 2 10) .nil)))) .nil) }
  distinct := by decide

/-- The literal becomes longer by two bytes, and so does its statement. -/
theorem rebase_all_or_nothing_literal :
    let calls : RebaseCalls Unit := ⟨fun _ => true, fun _ _ _ => some ()⟩
    let edits : SourceEdits := ⟨[⟨7, 10, some (ascii "'bcd'")⟩], 4, by decide, by decide⟩
    astRebase calls () literalTree.ast none 10 12 = (literalTree.ast, false) ∧
      ∃ after, astRebase calls () literalTree.ast (some edits) 10 12 = (after, true) ∧
        after = astRebasePlanApply [(2, 12)] literalTree.ast ∧
        CoordinatesMoved edits.items 10 literalTree.ast after ∧
        StatementsMoved edits.items 10 12 literalTree.ast after := by
  intro calls edits
  apply And.intro ((rebase_all_or_nothing calls () literalTree none 10 12).1 rfl)
  have built : astRebasePlanBuild calls () literalTree.ast (some edits) 10 12 = some ([(2, 12)], ()) := by decide +kernel
  obtain ⟨items, after, same, rebased, applied, -, -, moved, statements⟩ :=
    (rebase_all_or_nothing calls () literalTree (some edits) 10 12).2 [(2, 12)] () built
  cases same
  exact ⟨after, rebased, applied, moved, statements⟩

end SqlParser.Core
