import SqlParser.Core.MixedStrings

/-! # Soundness of the mixed-string update

The second walk does what the first one has checked: wherever the first one succeeds the second one
does too, as long as no replacement is asked for twice. Each replacement goes into the string that
the edit replaces, and every location moves by the edits that end at or before it.
-/

namespace SqlParser.Core

open SqlParser.Protobuf
open SqlParser.Library.Splice

/-! ## Every lookup is a binary search -/

/-- The index of the lookup is that of its location. -/
def LookupRight (edits : List SourceEdit) (lookup : Option MixedLookup) : Prop :=
  ∀ previous, lookup = some previous → previous.index = endedEdits edits previous.location

theorem endedEdits_mono (edits : List SourceEdit) {small large : Nat} (order : small ≤ large) :
    endedEdits edits small ≤ endedEdits edits large := by
  induction edits with
  | nil => exact le_rfl
  | cons edit edits inductionHypothesis =>
    simp only [endedEdits, List.takeWhile_cons] at inductionHypothesis ⊢
    by_cases ended : edit.sourceEnd ≤ small
    · simpa [ended, ended.trans order] using inductionHypothesis
    · simp [ended]

theorem endedEdits_drop (edits : List SourceEdit) {index location : Nat} (before : index ≤ endedEdits edits location) :
    index + endedEdits (edits.drop index) location = endedEdits edits location := by
  induction index generalizing edits with
  | zero => simp
  | succ index inductionHypothesis =>
    cases edits with
    | nil => simp [endedEdits] at before
    | cons edit edits =>
      simp only [endedEdits, List.takeWhile_cons] at before ⊢
      by_cases ended : edit.sourceEnd ≤ location
      · simp only [ended, decide_true, if_true, List.length_cons] at before ⊢
        have rest := inductionHypothesis edits (by simpa [endedEdits] using before)
        simp only [endedEdits] at rest
        simp only [List.drop_succ_cons]
        omega
      · simp [ended] at before

theorem mixedSearch_eq {edits : List SourceEdit} (ordered : Ordered 0 (edits.map SourceEdit.spliceEdit))
    {lookup : Option MixedLookup} (right : LookupRight edits lookup) (location : Nat) :
    mixedSearch edits lookup location = endedEdits edits location := by
  cases lookup with
  | none => exact editBefore_eq ordered location
  | some previous =>
    rw [mixedSearch]
    split
    next => exact editBefore_eq ordered location
    next later =>
      rw [right previous rfl]
      exact endedEdits_drop _ (endedEdits_mono _ (not_lt.mp later))

theorem mixedEditBefore_spec {edits : List SourceEdit} (ordered : Ordered 0 (edits.map SourceEdit.spliceEdit))
    {lookup : Option MixedLookup} (right : LookupRight edits lookup) (location : Nat) :
    (mixedEditBefore edits lookup location).2 = endedEdits edits location ∧
      LookupRight edits (mixedEditBefore edits lookup location).1 := by
  cases edits with
  | nil => exact ⟨rfl, right⟩
  | cons first edits =>
    simp only [mixedEditBefore, List.head?_cons]
    split
    next early =>
      have none : endedEdits (first :: edits) location = 0 := by
        rw [endedEdits, List.takeWhile_cons_of_neg (by simpa using early), List.length_nil]
      exact ⟨none.symm, right⟩
    next =>
      rw [mixedSearch_eq ordered right]
      apply And.intro rfl
      rintro previous ⟨⟩
      rfl

/-- In any order of the queries the cursor answers what the binary search does. -/
theorem mixedEditsBefore_eq {edits : List SourceEdit} (ordered : Ordered 0 (edits.map SourceEdit.spliceEdit))
    {lookup : Option MixedLookup} (right : LookupRight edits lookup) (locations : List Nat) :
    mixedEditsBefore edits lookup locations = locations.map (editBefore edits) := by
  induction locations generalizing lookup with
  | nil => rfl
  | cons location locations inductionHypothesis =>
    obtain ⟨index, behind⟩ := mixedEditBefore_spec ordered right location
    rw [mixedEditsBefore, List.map_cons, index, editBefore_eq ordered, inductionHypothesis behind]

/-! ## What the walks are for -/

/-- A location behind the edits: it moves by the deltas of those that end at or before it. -/
def movedLocation (edits : List SourceEdit) (location : Int) : Int :=
  if location < 0 then location
  else location + ((edits.filter fun edit => edit.sourceEnd ≤ location).map rebaseEditDelta).sum

/-- The index of the edit that starts at a location. -/
def startingEdit (edits : List SourceEdit) (location : Int) : Option Nat :=
  edits.findIdx? fun edit => (edit.sourceStart : Int) = location

/-- The text of a string constant behind the edits. -/
def editedText (edits : List SourceEdit) (text : Text) (location : Int) : Text :=
  match (startingEdit edits location).bind fun index => edits[index]? with
  | some edit => replacementContent (edit.replacement.getD [])
  | none => text

/-- The text and the location of a constant, if it is a string that is not null. -/
def constStrings (view : ConstView) : List (Text × Int) :=
  if view.isString ∧ !view.isNull then
    match view.sval with
    | some (some text, _) => [(text, view.location)]
    | _ => []
  else []

mutual

/-- The string constants of a tree, in the order of the walk. -/
def messageStrings : Protobuf.Message → List (Text × Int)
  | .mk type _ quantifier fields =>
    if type = .sqlvalueFunction then []
    else if type = .aConst then constStrings (constView quantifier fields)
    else fieldStrings type quantifier fields

def fieldStrings (type : MessageType) (quantifier : Nat → Nat) : Fields → List (Text × Int)
  | .nil => []
  | .cons field value rest =>
    (if entersField type quantifier field ∧ !isSourceLocation field ∧ field.type = .message then valueStrings value else []) ++
      fieldStrings type quantifier rest

def valueStrings : Value → List (Text × Int)
  | .child message => messageStrings message
  | .items messages => itemStrings messages
  | _ => []

def itemStrings : Messages → List (Text × Int)
  | .nil => []
  | .null rest => itemStrings rest
  | .cons message rest => messageStrings message ++ itemStrings rest

end

/-- A constant behind the edits. -/
def editedConst (edits : List SourceEdit) (quantifier : Nat → Nat) (fields : Fields) : Fields :=
  let view := constView quantifier fields
  constWith view.isString ((constStrings view).head?.map fun string => editedText edits string.1 string.2)
    (movedLocation edits ((view.sval.map Prod.snd).getD 0)) (movedLocation edits view.location) fields

mutual

/-- The tree behind the edits. -/
def editedMessage (edits : List SourceEdit) : Protobuf.Message → Protobuf.Message
  | .mk type unknownFields quantifier fields =>
    .mk type unknownFields quantifier
      (if type = .sqlvalueFunction then
        fields.replace (ascii "location") (withInt32 (movedLocation edits (fieldInt32 fields (ascii "location"))))
      else if type = .aConst then editedConst edits quantifier fields
      else editedFields edits type quantifier fields)

def editedFields (edits : List SourceEdit) (type : MessageType) (quantifier : Nat → Nat) : Fields → Fields
  | .nil => .nil
  | .cons field value rest =>
    .cons field
      (if entersField type quantifier field then
        if isSourceLocation field then editedLocation edits value
        else if field.type = .message then editedValue edits value
        else value
      else value)
      (editedFields edits type quantifier rest)

def editedLocation (edits : List SourceEdit) : Value → Value
  | .int32 slot location => .int32 slot (movedLocation edits location)
  | value => value

def editedValue (edits : List SourceEdit) : Value → Value
  | .child message => .child (editedMessage edits message)
  | .items messages => .items (editedItems edits messages)
  | value => value

def editedItems (edits : List SourceEdit) : Messages → Messages
  | .nil => .nil
  | .null rest => .null (editedItems edits rest)
  | .cons message rest => .cons (editedMessage edits message) (editedItems edits rest)

end

/-! ## The edit that starts at a location -/

theorem endedEdits_start {edits : List SourceEdit} (ordered : Ordered 0 (edits.map SourceEdit.spliceEdit))
    (proper : ∀ edit ∈ edits, edit.sourceStart < edit.sourceEnd) {index : Nat} {edit : SourceEdit}
    (found : edits[index]? = some edit) : endedEdits edits edit.sourceStart = index := by
  have proper := proper edit (List.mem_of_getElem? found)
  obtain ⟨bound, equal⟩ := List.getElem?_eq_some_iff.mp found
  apply Nat.le_antisymm
  · by_contra late
    have := endedEdits_front edit.sourceStart found (by omega)
    omega
  · by_contra early
    have inside : endedEdits edits edit.sourceStart < edits.length := by omega
    have behind := endedEdits_back ordered (List.getElem?_eq_getElem inside) le_rfl
    have ends := (List.pairwise_iff_getElem.mp (ordered_ends ordered)) _ index inside bound (by omega)
    rw [equal] at ends
    omega

/-- The lookup finds the edit that starts at a location, if there is one. -/
theorem startingEdit_eq {edits : List SourceEdit} (ordered : Ordered 0 (edits.map SourceEdit.spliceEdit))
    (proper : ∀ edit ∈ edits, edit.sourceStart < edit.sourceEnd) {location : Int} (real : ¬ location < 0) :
    startingEdit edits location =
      if (edits[endedEdits edits location.toNat]?).any fun edit => edit.sourceStart = location.toNat then
        some (endedEdits edits location.toNat)
      else none := by
  cases started : startingEdit edits location with
  | none =>
    have absent := List.findIdx?_eq_none_iff.mp started
    rw [if_neg]
    intro here
    cases found : edits[endedEdits edits location.toNat]? with
    | none =>
      rw [found] at here
      cases here
    | some edit =>
      have other := absent edit (List.mem_of_getElem? found)
      rw [found] at here
      simp only [Option.any_some, decide_eq_true_eq, decide_eq_false_iff_not] at here other
      omega
  | some index =>
    obtain ⟨bound, same, -⟩ := List.findIdx?_eq_some_iff_getElem.mp started
    have found := List.getElem?_eq_getElem bound
    have same : edits[index].sourceStart = location.toNat := by
      simp only [decide_eq_true_eq] at same
      omega
    have ended := endedEdits_start ordered proper found
    rw [same] at ended
    rw [ended, found, if_pos (by simpa using same)]

theorem filter_ended {edits : List SourceEdit} {cursor : Nat} (ordered : Ordered cursor (edits.map SourceEdit.spliceEdit))
    (location : Nat) :
    edits.filter (fun edit => edit.sourceEnd ≤ location) = edits.take (endedEdits edits location) := by
  induction edits generalizing cursor with
  | nil => rfl
  | cons edit edits inductionHypothesis =>
    rw [endedEdits, List.takeWhile_cons, List.filter_cons]
    split
    next => rw [List.length_cons, List.take_succ_cons, inductionHypothesis ordered.2.2, endedEdits]
    next later =>
      rw [List.length_nil, List.take_zero, List.filter_eq_nil_iff]
      intro other member
      have ends := (List.pairwise_cons.mp (ordered_ends ordered)).1 other member
      simp only [decide_eq_true_eq] at later ⊢
      omega

theorem movedLocation_eq {edits : List SourceEdit} (ordered : Ordered 0 (edits.map SourceEdit.spliceEdit)) {location : Int}
    (real : ¬ location < 0) :
    movedLocation edits location = location + deltaBefore edits (endedEdits edits location.toNat) := by
  have same : (fun edit : SourceEdit => decide ((edit.sourceEnd : Int) ≤ location)) =
      fun edit => decide (edit.sourceEnd ≤ location.toNat) := by
    funext edit
    simp only [decide_eq_decide]
    omega
  rw [movedLocation, if_neg real, same, filter_ended ordered, deltaBefore]

theorem mixedDeltas_getD {edits : List SourceEdit} {index : Nat} (bound : index ≤ edits.length) :
    (mixedDeltas edits).getD index 0 = deltaBefore edits index := by
  have general (start : Int) (edits : List SourceEdit) (index : Nat) (bound : index ≤ edits.length) :
      (edits.scanl (fun delta edit => delta + rebaseEditDelta edit) start).getD index 0 =
        start + deltaBefore edits index := by
    induction edits generalizing start index with
    | nil =>
      have zero : index = 0 := by simpa using bound
      simp [zero, deltaBefore]
    | cons edit edits inductionHypothesis =>
      cases index with
      | zero => simp [deltaBefore]
      | succ index =>
        rw [List.scanl_cons, List.getD_cons_succ, inductionHypothesis _ _ (by simpa using bound), deltaBefore_cons]
        omega
  rw [mixedDeltas, general 0 edits index bound, zero_add]

/-! ## The second walk follows the first -/

/-- The edits that start at the strings of a part, in the order of the walk. -/
def hits (edits : List SourceEdit) (strings : List (Text × Int)) : List Nat :=
  strings.filterMap fun string => startingEdit edits string.2

theorem hits_append (edits : List SourceEdit) (left right : List (Text × Int)) :
    hits edits (left ++ right) = hits edits left ++ hits edits right :=
  List.filterMap_append

/-- The replacements without those of some edits. -/
def takeReplacements (indices : List Nat) (replacements : List (Option Text)) : List (Option Text) :=
  indices.foldl (fun replacements index => replacements.set index none) replacements

theorem takeReplacements_getElem? {indices : List Nat} {index : Nat} (kept : index ∉ indices)
    (replacements : List (Option Text)) : (takeReplacements indices replacements)[index]? = replacements[index]? := by
  induction indices generalizing replacements with
  | nil => rfl
  | cons head indices inductionHypothesis =>
    simp only [List.mem_cons, not_or] at kept
    have rest := inductionHypothesis kept.2 (replacements.set head none)
    rwa [List.getElem?_set_ne (Ne.symm kept.1)] at rest

/-- What the first walk makes of its state. -/
structure MixedState.Checks (sql : Text) (edits : List SourceEdit) (before after : MixedState)
    (strings : List (Text × Int)) : Prop where
  lookup : LookupRight edits after.lookup
  replacements : after.replacements = before.replacements
  counted : after.strings = before.strings + strings.length
  matched : after.matched = before.matched + (hits edits strings).length
  literals : ∀ string ∈ strings, ∀ index edit, startingEdit edits string.2 = some index → edits[index]? = some edit →
    isQuotedAt sql edit string.1 = true

/-- What the second walk makes of its state. -/
structure MixedState.Mutates (edits : List SourceEdit) (before after : MixedState) (strings : List (Text × Int)) : Prop where
  lookup : LookupRight edits after.lookup
  replacements : after.replacements = takeReplacements (hits edits strings) before.replacements
  counted : after.strings = before.strings + strings.length
  matched : after.matched = before.matched + (hits edits strings).length

/-- Every replacement that the strings ask for is there, and none is asked for twice. -/
structure MixedState.Ready (edits : List SourceEdit) (state : MixedState) (strings : List (Text × Int)) : Prop where
  distinct : (hits edits strings).Nodup
  given : ∀ index ∈ hits edits strings, ∃ edit text, edits[index]? = some edit ∧ edit.replacement = some text ∧
    state.replacements[index]? = some (some text)

/-- Where the first walk succeeds the second one does too, with the result that the edits call for. -/
def Simulates {α : Type} (sql : Text) (edits : List SourceEdit) (check mutate : MixedWalk α) (strings : List (Text × Int))
    (result : α) : Prop :=
  ∀ before after value, LookupRight edits before.lookup → check before = some (after, value) →
    before.Checks sql edits after strings ∧
      ∀ state : MixedState, LookupRight edits state.lookup → state.Ready edits strings →
        ∃ final, mutate state = some (final, result) ∧ state.Mutates edits final strings

section Simulates

variable {α β γ : Type} {sql : Text} {edits : List SourceEdit}

theorem Simulates.done (value : α) : Simulates sql edits (.done value) (.done value) [] value := by
  rintro before after _ right ⟨⟩
  refine ⟨⟨right, rfl, rfl, rfl, fun _ member => absurd member List.not_mem_nil⟩, fun state stateRight _ => ?_⟩
  exact ⟨state, rfl, stateRight, rfl, rfl, rfl⟩

theorem Simulates.refuse {mutate : MixedWalk α} {strings : List (Text × Int)} {result : α} :
    Simulates sql edits .refuse mutate strings result := by
  rintro _ _ _ _ ⟨⟩

theorem Simulates.map {check mutate : MixedWalk α} {strings : List (Text × Int)} {result : α} (change : α → β)
    (simulates : Simulates sql edits check mutate strings result) :
    Simulates sql edits (check.map change) (mutate.map change) strings (change result) := by
  intro before after value right checked
  obtain ⟨⟨next, inner⟩, walked, equal⟩ := Option.map_eq_some_iff.mp checked
  cases equal
  obtain ⟨checks, follows⟩ := simulates before _ inner right walked
  refine ⟨checks, fun state stateRight ready => ?_⟩
  obtain ⟨final, mutated, mutates⟩ := follows state stateRight ready
  exact ⟨final, by rw [MixedWalk.map, mutated]; rfl, mutates⟩

theorem MixedState.Checks.append {first second third : MixedState} {left right : List (Text × Int)}
    (before : first.Checks sql edits second left) (after : second.Checks sql edits third right) :
    first.Checks sql edits third (left ++ right) := by
  constructor
  · exact after.lookup
  · exact after.replacements.trans before.replacements
  · rw [after.counted, before.counted, List.length_append, Nat.add_assoc]
  · rw [after.matched, before.matched, hits_append, List.length_append, Nat.add_assoc]
  · intro string member
    cases List.mem_append.mp member with
    | inl member => exact before.literals string member
    | inr member => exact after.literals string member

theorem MixedState.Mutates.append {first second third : MixedState} {left right : List (Text × Int)}
    (before : first.Mutates edits second left) (after : second.Mutates edits third right) :
    first.Mutates edits third (left ++ right) := by
  constructor
  · exact after.lookup
  · rw [after.replacements, before.replacements, hits_append, takeReplacements, takeReplacements, takeReplacements,
      List.foldl_append]
  · rw [after.counted, before.counted, List.length_append, Nat.add_assoc]
  · rw [after.matched, before.matched, hits_append, List.length_append, Nat.add_assoc]

/-- What one part takes, the next one does not ask for. -/
theorem MixedState.Ready.split {first : MixedState} (second : MixedState) {left right : List (Text × Int)}
    (ready : first.Ready edits (left ++ right)) :
    first.Ready edits left ∧ (first.Mutates edits second left → second.Ready edits right) := by
  have distinct := ready.distinct
  have given := ready.given
  rw [hits_append] at distinct given
  obtain ⟨leftDistinct, rightDistinct, apart⟩ := List.nodup_append'.mp distinct
  refine ⟨⟨leftDistinct, fun index member => given index (List.mem_append_left _ member)⟩, fun mutates => ?_⟩
  refine ⟨rightDistinct, fun index member => ?_⟩
  obtain ⟨edit, text, found, replacement, held⟩ := given index (List.mem_append_right _ member)
  refine ⟨edit, text, found, replacement, ?_⟩
  rw [mutates.replacements, takeReplacements_getElem? (fun taken => apart taken member), held]

theorem Simulates.both {firstCheck firstMutate : MixedWalk α} {secondCheck secondMutate : MixedWalk β}
    {left right : List (Text × Int)} {firstResult : α} {secondResult : β} (combine : α → β → γ)
    (first : Simulates sql edits firstCheck firstMutate left firstResult)
    (second : Simulates sql edits secondCheck secondMutate right secondResult) :
    Simulates sql edits (.both combine firstCheck secondCheck) (.both combine firstMutate secondMutate) (left ++ right)
      (combine firstResult secondResult) := by
  intro before after value lookupRight checked
  obtain ⟨⟨next, inner⟩, walked, checked⟩ := Option.bind_eq_some_iff.mp checked
  obtain ⟨⟨last, outer⟩, walkedNext, equal⟩ := Option.map_eq_some_iff.mp checked
  cases equal
  obtain ⟨checks, follows⟩ := first before _ inner lookupRight walked
  obtain ⟨checksNext, followsNext⟩ := second _ _ outer checks.lookup walkedNext
  refine ⟨checks.append checksNext, fun state stateRight ready => ?_⟩
  obtain ⟨middle, mutated, mutates⟩ := follows state stateRight (ready.split state).1
  obtain ⟨final, mutatedNext, mutatesNext⟩ := followsNext middle mutates.lookup ((ready.split _).2 mutates)
  refine ⟨final, ?_, mutates.append mutatesNext⟩
  rw [MixedWalk.both, mutated, Option.bind_some]
  dsimp only
  rw [mutatedNext]
  rfl

end Simulates

/-! ## One location and one string -/

abbrev checkContext (sql : Text) (edits : List SourceEdit) : MixedContext := ⟨sql, edits, [], false⟩

abbrev mutateContext (sql : Text) (edits : List SourceEdit) : MixedContext := ⟨sql, edits, mixedDeltas edits, true⟩

section Parts

variable {sql : Text} {edits : List SourceEdit}

/-- A location that the first walk accepts stays in the range of its type. -/
theorem toInt32_moved (certified : CertifiedInsertEdits edits sql.length) (short : sql.length ≤ int32Max) {location : Int}
    (real : ¬ location < 0) (bound : location.toNat ≤ sql.length) :
    toInt32 (location + (mixedDeltas edits).getD (endedEdits edits location.toNat) 0) = movedLocation edits location := by
  have indexBound := endedEdits_le edits location.toNat
  rw [mixedDeltas_getD indexBound, movedLocation_eq certified.ordered real]
  have range := moved_range certified short bound
  rw [Int.toNat_of_nonneg (by omega)] at range
  rw [toInt32]
  apply Int.bmod_eq_of_le
  · omega
  · simp only [int32Max] at range
    omega

theorem simulates_location (certified : CertifiedInsertEdits edits sql.length) (short : sql.length ≤ int32Max)
    (location : Int) :
    Simulates sql edits (mixedLocation (checkContext sql edits) location) (mixedLocation (mutateContext sql edits) location)
      [] (movedLocation edits location) := by
  intro before after value right checked
  simp only [mixedLocation, checkContext, Bool.false_eq_true, if_false] at checked
  split_ifs at checked with synthetic beyond inside
  · cases checked
    refine ⟨⟨right, rfl, rfl, rfl, fun _ member => absurd member List.not_mem_nil⟩, fun state stateRight _ => ?_⟩
    refine ⟨state, ?_, stateRight, rfl, rfl, rfl⟩
    rw [mixedLocation, if_pos synthetic, movedLocation, if_pos synthetic]
  · cases checked
    obtain ⟨index, behind⟩ := mixedEditBefore_spec certified.ordered right location.toNat
    refine ⟨⟨behind, rfl, rfl, rfl, fun _ member => absurd member List.not_mem_nil⟩, fun state stateRight _ => ?_⟩
    obtain ⟨stateIndex, stateBehind⟩ := mixedEditBefore_spec certified.ordered stateRight location.toNat
    rw [index] at inside
    refine ⟨{ state with lookup := (mixedEditBefore edits state.lookup location.toNat).1 }, ?_, stateBehind, rfl, rfl, rfl⟩
    simp only [mixedLocation, mutateContext, if_true]
    rw [if_neg synthetic, if_neg beyond, stateIndex, if_neg inside,
      toInt32_moved certified short synthetic (not_lt.mp beyond)]

theorem editedText_of_start {text : Text} {location : Int} {index : Nat} {edit : SourceEdit} {replacement : Text}
    (start : startingEdit edits location = some index) (found : edits[index]? = some edit)
    (given : edit.replacement = some replacement) :
    editedText edits text location = replacementContent replacement := by
  rw [editedText, start, Option.bind_some, found]
  dsimp only
  rw [given, Option.getD_some]

theorem simulates_string (certified : CertifiedInsertEdits edits sql.length) (text : Text) (location : Int) :
    Simulates sql edits (mixedString (checkContext sql edits) text location)
      (mixedString (mutateContext sql edits) text location) [(text, location)] (editedText edits text location) := by
  intro before after value right checked
  -- No edit starts here: both walks only count the string.
  have untouched (none : startingEdit edits location = none) (lookup : Option MixedLookup)
      (lookupRight : LookupRight edits lookup) (state : MixedState) :
      MixedState.Checks sql edits state { state with strings := state.strings + 1, lookup := lookup } [(text, location)] ∧
        MixedState.Mutates edits state { state with strings := state.strings + 1, lookup := lookup } [(text, location)] ∧
        editedText edits text location = text := by
    have noHit : hits edits [(text, location)] = [] := by simp [hits, none]
    refine ⟨⟨lookupRight, rfl, rfl, by rw [noHit]; rfl, ?_⟩, ⟨lookupRight, by rw [noHit]; rfl, rfl, by rw [noHit]; rfl⟩, ?_⟩
    · intro string member index edit start
      rw [List.mem_singleton.mp member, none] at start
      cases start
    · rw [editedText, none]
      rfl
  simp only [mixedString, checkContext, Bool.false_eq_true, if_false] at checked
  split at checked
  next synthetic =>
    cases checked
    have none : startingEdit edits location = none := by
      apply List.findIdx?_eq_none_iff.mpr
      intro edit _
      simp only [decide_eq_false_iff_not]
      omega
    refine ⟨(untouched none _ right before).1, fun state stateRight _ => ?_⟩
    obtain ⟨-, mutates, same⟩ := untouched none _ stateRight state
    exact ⟨_, by rw [mixedString, if_pos synthetic, same], mutates⟩
  next real =>
    obtain ⟨index, behind⟩ := mixedEditBefore_spec certified.ordered right location.toNat
    have starting := startingEdit_eq certified.ordered certified.proper real
    rw [index] at checked
    split at checked
    next absent =>
      cases checked
      rw [absent] at starting
      have none : startingEdit edits location = none := starting
      refine ⟨(untouched none _ behind before).1, fun state stateRight _ => ?_⟩
      obtain ⟨stateIndex, stateBehind⟩ := mixedEditBefore_spec certified.ordered stateRight location.toNat
      obtain ⟨-, mutates, same⟩ := untouched none _ stateBehind state
      refine ⟨_, ?_, mutates⟩
      simp only [mixedString, mutateContext]
      rw [if_neg real, stateIndex, absent, same]
    next edit found =>
      rw [found] at starting
      split at checked
      next elsewhere =>
        cases checked
        have none : startingEdit edits location = none := by
          rw [starting]
          exact if_neg (by simpa using elsewhere)
        refine ⟨(untouched none _ behind before).1, fun state stateRight _ => ?_⟩
        obtain ⟨stateIndex, stateBehind⟩ := mixedEditBefore_spec certified.ordered stateRight location.toNat
        obtain ⟨-, mutates, same⟩ := untouched none _ stateBehind state
        refine ⟨_, ?_, mutates⟩
        simp only [mixedString, mutateContext]
        rw [if_neg real, stateIndex, found]
        dsimp only
        rw [if_pos elsewhere, same]
      next here =>
        have quoted : isQuotedAt sql edit text = true := by
          by_contra unquoted
          rw [if_neg unquoted] at checked
          cases checked
        rw [if_pos quoted] at checked
        cases checked
        have start : startingEdit edits location = some (endedEdits edits location.toNat) := by
          rw [starting]
          exact if_pos (by simpa using here)
        have hit : hits edits [(text, location)] = [endedEdits edits location.toNat] := by simp [hits, start]
        refine ⟨⟨behind, rfl, rfl, by rw [hit]; rfl, ?_⟩, fun state stateRight ready => ?_⟩
        · intro string member other otherEdit otherStart otherFound
          rw [List.mem_singleton.mp member] at otherStart ⊢
          cases start.symm.trans otherStart
          cases found.symm.trans otherFound
          exact quoted
        · obtain ⟨stateIndex, stateBehind⟩ := mixedEditBefore_spec certified.ordered stateRight location.toNat
          obtain ⟨other, replacement, otherFound, given, held⟩ := ready.given (endedEdits edits location.toNat) (by simp [hit])
          cases found.symm.trans otherFound
          refine ⟨⟨state.replacements.set (endedEdits edits location.toNat) none, state.strings + 1, state.matched + 1,
            (mixedEditBefore edits state.lookup location.toNat).1⟩, ?_, stateBehind, by rw [hit]; rfl, rfl, by rw [hit]; rfl⟩
          simp only [mixedString, mutateContext, if_true]
          rw [if_neg real, stateIndex, found]
          dsimp only
          rw [if_neg here, held, editedText_of_start start found given]

end Parts

/-! ## The whole tree -/

section Tree

variable {sql : Text} {edits : List SourceEdit}

theorem simulates_constText (certified : CertifiedInsertEdits edits sql.length) (view : ConstView) :
    Simulates sql edits (mixedConstText (checkContext sql edits) view) (mixedConstText (mutateContext sql edits) view)
      (constStrings view) ((constStrings view).head?.map fun string => editedText edits string.1 string.2) := by
  rw [mixedConstText, mixedConstText, constStrings]
  by_cases isText : view.isString ∧ !view.isNull
  · rw [if_pos isText, if_pos isText, if_pos isText]
    match view.sval with
    | none => exact .refuse
    | some (none, _) => exact .refuse
    | some (some text, _) => exact (simulates_string certified text view.location).map some
  · rw [if_neg isText, if_neg isText, if_neg isText]
    exact .done none

theorem simulates_constWrapper (certified : CertifiedInsertEdits edits sql.length) (short : sql.length ≤ int32Max)
    (view : ConstView) :
    ∃ wrapper, Simulates sql edits (mixedConstWrapper (checkContext sql edits) view)
      (mixedConstWrapper (mutateContext sql edits) view) [] wrapper ∧
      ∀ text location fields, constWith view.isString text wrapper location fields =
        constWith view.isString text (movedLocation edits ((view.sval.map Prod.snd).getD 0)) location fields := by
  rw [mixedConstWrapper, mixedConstWrapper]
  cases view.isString with
  | false => exact ⟨0, .done 0, fun _ _ _ => rfl⟩
  | true =>
    cases held : view.sval with
    | some sval => exact ⟨_, simulates_location certified short sval.2, fun _ _ _ => rfl⟩
    | none =>
      refine ⟨0, .done 0, fun _ _ _ => ?_⟩
      have zero : movedLocation edits 0 = 0 := by
        have none : edits.filter (fun edit => (edit.sourceEnd : Int) ≤ 0) = [] := by
          apply List.filter_eq_nil_iff.mpr
          intro edit member
          have := certified.proper edit member
          simp only [decide_eq_true_eq]
          omega
        rw [movedLocation, none]
        rfl
      rw [Option.map_none, Option.getD_none, zero]

theorem simulates_const (certified : CertifiedInsertEdits edits sql.length) (short : sql.length ≤ int32Max)
    (quantifier : Nat → Nat) (fields : Fields) :
    Simulates sql edits (mixedConst (checkContext sql edits) quantifier fields)
      (mixedConst (mutateContext sql edits) quantifier fields) (constStrings (constView quantifier fields))
      (editedConst edits quantifier fields) := by
  obtain ⟨wrapper, wrapperFollows, sameWrapper⟩ := simulates_constWrapper certified short (constView quantifier fields)
  have textFollows := simulates_constText certified (constView quantifier fields)
  have locationFollows := simulates_location certified short (constView quantifier fields).location
  have follows := Simulates.both (fun content location =>
      constWith (constView quantifier fields).isString content.1 content.2 location fields)
    (Simulates.both Prod.mk textFollows wrapperFollows) locationFollows
  rw [List.append_nil, List.append_nil] at follows
  rw [editedConst, ← sameWrapper]
  exact follows

theorem simulates_ownLocation (certified : CertifiedInsertEdits edits sql.length) (short : sql.length ≤ int32Max)
    (value : Value) :
    Simulates sql edits (mixedOwnLocation (checkContext sql edits) value) (mixedOwnLocation (mutateContext sql edits) value)
      [] (editedLocation edits value) := by
  cases value with
  | int32 slot location => exact (simulates_location certified short location).map (Value.int32 slot)
  | string | other | absent | child | items | missingItems => exact .done _

mutual

theorem simulates_message (certified : CertifiedInsertEdits edits sql.length) (short : sql.length ≤ int32Max) (depth : Nat)
    (message : Protobuf.Message) :
    Simulates sql edits (mixedMessage (checkContext sql edits) depth message)
      (mixedMessage (mutateContext sql edits) depth message) (messageStrings message) (editedMessage edits message) := by
  cases message with
  | mk type unknownFields quantifier fields =>
    rw [mixedMessage, mixedMessage, messageStrings, editedMessage]
    split
    next => exact .refuse
    next =>
      split
      next => exact (simulates_location certified short _).map _
      next =>
        split
        next => exact (simulates_const certified short quantifier fields).map (Protobuf.Message.mk type unknownFields quantifier)
        next =>
          exact (simulates_fields certified short depth type quantifier fields).map
            (Protobuf.Message.mk type unknownFields quantifier)

theorem simulates_fields (certified : CertifiedInsertEdits edits sql.length) (short : sql.length ≤ int32Max) (depth : Nat)
    (type : MessageType) (quantifier : Nat → Nat) (fields : Fields) :
    Simulates sql edits (mixedFields (checkContext sql edits) depth type quantifier fields)
      (mixedFields (mutateContext sql edits) depth type quantifier fields) (fieldStrings type quantifier fields)
      (editedFields edits type quantifier fields) := by
  cases fields with
  | nil => exact .done Fields.nil
  | cons field value rest =>
    rw [mixedFields, mixedFields, fieldStrings, editedFields]
    apply Simulates.both (Fields.cons field) _ (simulates_fields certified short depth type quantifier rest)
    by_cases enters : entersField type quantifier field = true
    · by_cases location : isSourceLocation field = true
      · simp only [enters, location, if_true, Bool.not_true, Bool.false_eq_true, false_and, and_false, if_false]
        exact simulates_ownLocation certified short value
      · rw [Bool.not_eq_true] at location
        by_cases message : field.type = .message
        · simp only [enters, location, message, if_true, Bool.not_false, and_self, Bool.false_eq_true, if_false]
          exact simulates_value certified short depth value
        · simp only [enters, location, message, if_true, and_false, Bool.false_eq_true, if_false]
          exact .done value
    · simp only [enters, Bool.false_eq_true, false_and, if_false]
      exact .done value

theorem simulates_value (certified : CertifiedInsertEdits edits sql.length) (short : sql.length ≤ int32Max) (depth : Nat)
    (value : Value) :
    Simulates sql edits (mixedValue (checkContext sql edits) depth value) (mixedValue (mutateContext sql edits) depth value)
      (valueStrings value) (editedValue edits value) := by
  cases value with
  | child message => exact (simulates_message certified short (depth + 1) message).map Value.child
  | items messages => exact (simulates_items certified short depth messages).map Value.items
  | missingItems => exact .refuse
  | int32 | string | other | absent => exact .done _

theorem simulates_items (certified : CertifiedInsertEdits edits sql.length) (short : sql.length ≤ int32Max) (depth : Nat)
    (messages : Messages) :
    Simulates sql edits (mixedItems (checkContext sql edits) depth messages)
      (mixedItems (mutateContext sql edits) depth messages) (itemStrings messages) (editedItems edits messages) := by
  cases messages with
  | nil => exact .done Messages.nil
  | null rest => exact (simulates_items certified short depth rest).map Messages.null
  | cons message rest =>
    exact Simulates.both Messages.cons (simulates_message certified short (depth + 1) message)
      (simulates_items certified short depth rest)

end

end Tree

/-! ## The update as a whole -/

/-- The state of `mixed_ctx` before the first walk. -/
def MixedState.initial (edits : List SourceEdit) : MixedState :=
  ⟨edits.map SourceEdit.replacement, 0, 0, none⟩

theorem takeReplacements_length (indices : List Nat) (replacements : List (Option Text)) :
    (takeReplacements indices replacements).length = replacements.length := by
  induction indices generalizing replacements with
  | nil => rfl
  | cons index indices inductionHypothesis =>
    exact (inductionHypothesis (replacements.set index none)).trans List.length_set

theorem takeReplacements_mem {indices : List Nat} {index : Nat} (taken : index ∈ indices)
    {replacements : List (Option Text)} (bound : index < replacements.length) :
    (takeReplacements indices replacements)[index]? = some none := by
  induction indices generalizing replacements with
  | nil => cases taken
  | cons head indices inductionHypothesis =>
    have rest : index < (replacements.set head none).length := by rwa [List.length_set]
    by_cases later : index ∈ indices
    · exact inductionHypothesis later rest
    · cases taken with
      | head =>
        have kept := takeReplacements_getElem? later (replacements.set index none)
        rw [List.getElem?_set_self bound] at kept
        exact kept
      | tail _ member => exact absurd member later

theorem takeReplacements_all {indices : List Nat} {replacements : List (Option Text)}
    (all : ∀ index < replacements.length, index ∈ indices) :
    takeReplacements indices replacements = replacements.map fun _ => none := by
  apply List.ext_getElem?
  intro index
  by_cases bound : index < replacements.length
  · rw [takeReplacements_mem (all index bound) bound, List.getElem?_map, List.getElem?_eq_getElem bound]
    rfl
  · rw [List.getElem?_eq_none (by rw [takeReplacements_length]; omega), List.getElem?_eq_none (by rw [List.length_map]; omega)]

theorem startingEdit_start {edits : List SourceEdit} (ordered : Ordered 0 (edits.map SourceEdit.spliceEdit))
    (proper : ∀ edit ∈ edits, edit.sourceStart < edit.sourceEnd) {index : Nat} {edit : SourceEdit}
    (found : edits[index]? = some edit) : startingEdit edits edit.sourceStart = some index := by
  rw [startingEdit_eq ordered proper (by omega), Int.toNat_natCast, endedEdits_start ordered proper found, found]
  simp

/-- As many hits as edits, of which none is missed, hit each edit once. -/
theorem hits_perm {edits : List SourceEdit} (ordered : Ordered 0 (edits.map SourceEdit.spliceEdit))
    (proper : ∀ edit ∈ edits, edit.sourceStart < edit.sourceEnd) {strings : List (Text × Int)}
    (count : (hits edits strings).length = edits.length)
    (member : ∀ edit ∈ edits, ∃ string ∈ strings, string.2 = edit.sourceStart) :
    (hits edits strings).Perm (List.range edits.length) := by
  have covers : List.range edits.length ⊆ hits edits strings := by
    intro index inRange
    have found := List.getElem?_eq_getElem (List.mem_range.mp inRange)
    obtain ⟨string, stringMember, start⟩ := member _ (List.mem_of_getElem? found)
    exact List.mem_filterMap.mpr ⟨string, stringMember, start ▸ startingEdit_start ordered proper found⟩
  have within := List.subperm_of_subset List.nodup_range covers
  exact (within.perm_of_length_le (by rw [count, List.length_range])).symm

/-- If the first walk finds as many strings as there are edits, and each edit starts at a string of the
tree, the second walk succeeds: it takes each replacement once and for a string that was the content of
the literal, and moves every location by the edits before it. In any order of queries the cursor
answers what the binary search does. -/
theorem mixed_update_exact (handle : InsertHandle) (sql : Text) (edits : List SourceEdit) (ast value : Protobuf.Message)
    (after : MixedState) (allRawPlain : Bool) (rawLength : Nat) (length : handle.sqlLength = sql.length)
    (short : sql.length ≤ int32Max)
    (checked : mixedMessage (checkContext sql edits) 0 ast (.initial edits) = some (after, value))
    (matched : after.matched = edits.length)
    (accepted : certifyInsertEdits handle edits after.strings allRawPlain rawLength = true)
    (member : ∀ edit ∈ edits, ∃ string ∈ messageStrings ast, string.2 = edit.sourceStart) :
    (∃ final, mixedMessage (mutateContext sql edits) 0 ast { after with lookup := none } =
        some (final, editedMessage edits ast) ∧
      final.replacements = edits.map (fun _ => none) ∧
      after.strings = (messageStrings ast).length ∧ final.strings = after.strings + (messageStrings ast).length) ∧
    (hits edits (messageStrings ast)).Perm (List.range edits.length) ∧
    (∀ string ∈ messageStrings ast, ∀ index edit, startingEdit edits string.2 = some index → edits[index]? = some edit →
      isQuotedAt sql edit string.1 = true) ∧
    ∀ locations, mixedEditsBefore edits none locations = locations.map (editBefore edits) := by
  have certified := certifyInsertEdits_certified accepted
  rw [length] at certified
  have noLookup : LookupRight edits none := by rintro _ ⟨⟩
  obtain ⟨checks, follows⟩ := simulates_message certified short 0 ast (.initial edits) after value noLookup checked
  have counts := checks.matched
  rw [matched, MixedState.initial, zero_add] at counts
  have perm := hits_perm certified.ordered certified.proper counts.symm member
  have ready : MixedState.Ready edits { after with lookup := none } (messageStrings ast) := by
    apply MixedState.Ready.mk (perm.nodup_iff.mpr List.nodup_range)
    intro index inHits
    have bound := List.mem_range.mp (perm.mem_iff.mp inHits)
    obtain ⟨text, given, -⟩ := certified.given edits[index] (List.getElem_mem bound)
    refine ⟨edits[index], text, List.getElem?_eq_getElem bound, given, ?_⟩
    simp only [checks.replacements, MixedState.initial, List.getElem?_map, List.getElem?_eq_getElem bound, Option.map_some,
      given]
  obtain ⟨final, mutated, mutates⟩ := follows { after with lookup := none } noLookup ready
  have taken : final.replacements = edits.map fun _ => none := by
    rw [mutates.replacements, checks.replacements, MixedState.initial, takeReplacements_all, List.map_map]
    · rfl
    · intro index bound
      rw [List.length_map] at bound
      exact perm.mem_iff.mpr (List.mem_range.mpr bound)
  have strings := checks.counted
  rw [MixedState.initial, zero_add] at strings
  exact ⟨⟨final, mutated, taken, strings, mutates.counted⟩, perm, checks.literals, mixedEditsBefore_eq certified.ordered noLookup⟩

/-- A handle without bookkeeping, over a source of seven bytes with two strings. -/
def plainInsertHandle : InsertHandle :=
  ⟨false, false, 0, 0, false, 0, false, 0, 0, false, 0, .ok, fun strings => strings = 2, 7⟩

/-- A list of string constants. -/
def constantList (strings : List (Text × Int)) : Protobuf.Message :=
  .mk .list 0 (fun _ => 0) (.cons ⟨ascii "items", 1, .repeated, .message, false, 24, .aConst⟩ (.items (items strings)) .nil)
where
  items : List (Text × Int) → Messages
    | [] => .nil
    | (text, location) :: strings =>
      .cons (.mk .aConst 0 (fun _ => valSval)
        (.cons ⟨ascii "sval", 4, .none, .message, true, valCaseOffset, .string⟩
          (.child (.mk .string 0 (fun _ => 0)
            (.cons ⟨ascii "sval", 1, .none, .string, false, 0, .other 0⟩ (.string 0 (some text))
              (.cons ⟨ascii "location", 2, .none, .int32, false, 0, .other 0⟩ (.int32 0 0) .nil))))
          (.cons ⟨ascii "isnull", 10, .none, .other, false, 0, .other 0⟩ (.other 0)
            (.cons ⟨ascii "location", 11, .none, .int32, false, 0, .other 0⟩ (.int32 0 location) .nil)))) (items strings)

/-- The two literals of `'a','b'`. -/
def twoLiteralEdits : List SourceEdit :=
  [⟨0, 3, some (ascii "'xyz'")⟩, ⟨4, 7, some (ascii "''")⟩]

theorem mixed_update_exact_two :
    ∃ after value final, mixedMessage (checkContext (ascii "'a','b'") twoLiteralEdits) 0
        (constantList [(ascii "a", 0), (ascii "b", 4)]) (.initial twoLiteralEdits) = some (after, value) ∧
      mixedMessage (mutateContext (ascii "'a','b'") twoLiteralEdits) 0 (constantList [(ascii "a", 0), (ascii "b", 4)])
          { after with lookup := none } =
        some (final, editedMessage twoLiteralEdits (constantList [(ascii "a", 0), (ascii "b", 4)])) := by
  obtain ⟨⟨after, value⟩, checked⟩ := Option.isSome_iff_exists.mp
    (show (mixedMessage (checkContext (ascii "'a','b'") twoLiteralEdits) 0
      (constantList [(ascii "a", 0), (ascii "b", 4)]) (.initial twoLiteralEdits)).isSome = true by decide +kernel)
  have state : after.matched = 2 ∧ after.strings = 2 := by
    have counts : (mixedMessage (checkContext (ascii "'a','b'") twoLiteralEdits) 0
        (constantList [(ascii "a", 0), (ascii "b", 4)]) (.initial twoLiteralEdits)).map
        (fun outcome => (outcome.1.matched, outcome.1.strings)) = some (2, 2) := by decide +kernel
    rw [checked] at counts
    simpa using counts
  obtain ⟨⟨final, mutated, -⟩, -⟩ := mixed_update_exact plainInsertHandle (ascii "'a','b'") twoLiteralEdits
    (constantList [(ascii "a", 0), (ascii "b", 4)]) value after false 0 rfl (by decide) checked state.1
    (by rw [state.2]; decide +kernel) (by decide +kernel)
  exact ⟨after, value, final, checked, mutated⟩

/-- Two constants at one location take one replacement twice: the counts agree, and the second walk reads
a replacement that is gone. -/
theorem mixed_update_shared_location :
    let sql := ascii "'a','b'"
    let ast := constantList [(ascii "a", 0), (ascii "a", 0)]
    (mixedMessage (checkContext sql twoLiteralEdits) 0 ast (.initial twoLiteralEdits)).map
        (fun outcome => (outcome.1.matched, outcome.1.strings)) = some (twoLiteralEdits.length, 2) ∧
      certifyInsertEdits plainInsertHandle twoLiteralEdits 2 false 0 = true ∧
      ((mixedMessage (checkContext sql twoLiteralEdits) 0 ast (.initial twoLiteralEdits)).bind fun outcome =>
        mixedMessage (mutateContext sql twoLiteralEdits) 0 ast { outcome.1 with lookup := none }).isNone = true := by
  decide +kernel

end SqlParser.Core
