import SqlParser.Core.ControlEnvelope

/-! # The units of a control-flow text behind source edits

`sqlparser_control_project_surface_units` moves the places of the units along with the edits of the
source. One cursor goes over the edits, from each boundary of a unit to the next.
-/

namespace SqlParser.Core

open SqlParser.Library.Splice

/-! ## The cursor -/

/-- The edits that are left, and the two cursors. -/
structure SurfaceCursor where
  edits : List Replacing
  source : Nat
  output : Nat

def surfaceError (message : String) : Error :=
  ⟨.internalError, message⟩

/-- The end of `sqlparser_control_surface_advance` behind its loop. -/
def surfaceArrive (sourceLimit outputLength : Nat) (cursor : SurfaceCursor) : Except Error SurfaceCursor :=
  if cursor.source > sourceLimit ∨ sourceLimit - cursor.source > sizeSub outputLength cursor.output then
    .error (surfaceError "control surface output range is invalid")
  else .ok ⟨cursor.edits, sourceLimit, cursor.output + (sourceLimit - cursor.source)⟩

/-- `sqlparser_control_surface_advance`; a failed call leaves the caller's cursor as it is. -/
def surfaceAdvance (sourceLimit : Nat) (includeInsertAtLimit : Bool) (outputLength : Nat) :
    List Replacing → Nat → Nat → Except Error SurfaceCursor
  | [], source, output => surfaceArrive sourceLimit outputLength ⟨[], source, output⟩
  | edit :: edits, source, output =>
    if edit.start > sourceLimit ∨ (edit.start = sourceLimit ∧ (!includeInsertAtLimit ∨ edit.stop ≠ sourceLimit)) then
      surfaceArrive sourceLimit outputLength ⟨edit :: edits, source, output⟩
    else
      match edit.content with
      | none => .error (surfaceError "control surface edit crosses a unit boundary")
      | some content =>
        if edit.start < source ∨ edit.stop < edit.start ∨ edit.stop > sourceLimit then
          .error (surfaceError "control surface edit crosses a unit boundary")
        else
          let copyLength := edit.start - source
          if copyLength > sizeSub outputLength output ∨ content.length > sizeSub outputLength output - copyLength then
            .error (surfaceError "control surface output length is invalid")
          else surfaceAdvance sourceLimit includeInsertAtLimit outputLength edits edit.stop
            (output + (copyLength + content.length))

/-! ## The units -/

/-- What the loop over the units leaves. -/
structure UnitsProjected where
  result : Except Error SurfaceCursor
  units : List PlacedUnit

/-- The loop over the units; a new offset is stored before the length is known. -/
def projectUnits (sqlLength outputLength : Nat) (cursor : SurfaceCursor) : List PlacedUnit → UnitsProjected
  | [] => ⟨.ok cursor, []⟩
  | placed :: units =>
    if placed.unit.sourceOffset > sqlLength ∨ placed.unit.sourceLength > sqlLength - placed.unit.sourceOffset then
      ⟨.error (surfaceError "control unit source range is invalid"), placed :: units⟩
    else
      match surfaceAdvance placed.unit.sourceOffset false outputLength cursor.edits cursor.source cursor.output with
      | .error error => ⟨.error error, placed :: units⟩
      | .ok start =>
        match surfaceAdvance placed.unit.stop true outputLength start.edits start.source start.output with
        | .error error => ⟨.error error, { placed with currentOffset := start.output } :: units⟩
        | .ok stop =>
          let later := projectUnits sqlLength outputLength stop units
          ⟨later.result, ⟨placed.unit, start.output, stop.output - start.output⟩ :: later.units⟩

/-- What the call returns, and the units of the state behind it. -/
structure ProjectionOutcome where
  result : Except Error Unit
  units : List PlacedUnit

/-- `sqlparser_control_project_surface_units` -/
def controlProjectSurfaceUnits (sqlLength outputLength : Nat) (edits : List SourceEdit) (units : List PlacedUnit) :
    ProjectionOutcome :=
  let projected := projectUnits sqlLength outputLength ⟨edits.map SourceEdit.replacing, 0, 0⟩ units
  match projected.result with
  | .error error => ⟨.error error, projected.units⟩
  | .ok cursor =>
    match surfaceAdvance sqlLength true outputLength cursor.edits cursor.source cursor.output with
    | .error error => ⟨.error error, projected.units⟩
    | .ok final =>
      if final.edits ≠ [] ∨ final.output ≠ outputLength then
        ⟨.error (surfaceError "control surface projection is incomplete"), projected.units⟩
      else ⟨.ok (), projected.units⟩

/-! ## What it is for -/

/-- An edit replaces bytes on both sides of a point. -/
def Crossed (edits : List Replacing) (point : Nat) : Prop :=
  Inside (edits.map Replacing.edit) point

instance (edits : List Replacing) (point : Nat) : Decidable (Crossed edits point) :=
  inferInstanceAs (Decidable (∃ edit ∈ edits.map Replacing.edit, edit.start < point ∧ point < edit.stop))

/-- An edit stands inside a unit, its boundaries included. -/
def ControlUnit.Holds (unit : ControlUnit) (edit : Replacing) : Prop :=
  unit.sourceOffset ≤ edit.start ∧ edit.stop ≤ unit.stop

instance (unit : ControlUnit) (edit : Replacing) : Decidable (unit.Holds edit) :=
  inferInstanceAs (Decidable (_ ∧ _))

/-- The edits of a unit: an insertion between two units that touch is one of the first. -/
def ownEdits (edits : List Replacing) (earlier : List ControlUnit) (unit : ControlUnit) : List Replacing :=
  edits.filter fun edit => unit.Holds edit ∧ ∀ other ∈ earlier, ¬other.Holds edit

/-- The edits in front of a unit. -/
def frontEdits (edits : List Replacing) (earlier : List ControlUnit) (unit : ControlUnit) : List Replacing :=
  edits.filter fun edit => edit.stop ≤ unit.sourceOffset ∧ (edit.start < unit.sourceOffset ∨ ∃ other ∈ earlier,
    other.Holds edit)

/-- The source of a unit with the edits of the unit applied. -/
def unitText (sql : Text) (edits : List Replacing) (earlier : List ControlUnit) (unit : ControlUnit) : Text :=
  splice (sql.take unit.stop) unit.sourceOffset ((ownEdits edits earlier unit).map Replacing.edit)

/-- Where the source of a unit starts in the new text. -/
def unitPlace (sql : Text) (edits : List Replacing) (earlier : List ControlUnit) (unit : ControlUnit) : Nat :=
  (splice (sql.take unit.sourceOffset) 0 ((frontEdits edits earlier unit).map Replacing.edit)).length

/-- Up to the first boundary that an edit crosses, the units already have the places of the new text. -/
def Settled (sql : Text) (edits : List Replacing) : List ControlUnit → List PlacedUnit → Prop
  | _, [] => True
  | earlier, placed :: units =>
    Crossed edits placed.unit.sourceOffset ∨
      (placed.currentOffset = unitPlace sql edits earlier placed.unit ∧
        (Crossed edits placed.unit.stop ∨
          (placed.currentLength = (unitText sql edits earlier placed.unit).length ∧
            Settled sql edits (earlier ++ [placed.unit]) units)))

/-- The projection succeeds where no edit crosses a boundary, and then the units denote their edited sources; else they
stay. -/
structure ProjectionAgrees (sql : Text) (edits : List Replacing) (units : List PlacedUnit)
    (outcome : ProjectionOutcome) : Prop where
  succeeds : outcome.result = .ok () ↔
    ∀ placed ∈ units, ¬Crossed edits placed.unit.sourceOffset ∧ ¬Crossed edits placed.unit.stop
  places : outcome.result = .ok () → outcome.units.map PlacedUnit.unit = units.map PlacedUnit.unit ∧
    ∀ earlier placed later, outcome.units = earlier ++ placed :: later →
      placed.Denotes (splice sql 0 (edits.map Replacing.edit)) (unitText sql edits (earlier.map PlacedUnit.unit) placed.unit)
  kept : outcome.result ≠ .ok () → outcome.units = units

/-! ## One advance -/

section advance

variable {sql : Text} {edits : List Replacing}

/-- The edits up to a point are taken in. -/
structure CursorAt (sql : Text) (edits front : List Replacing) (cursor : SurfaceCursor) : Prop where
  split : edits = front ++ cursor.edits
  ended : ∀ edit ∈ front, edit.stop ≤ cursor.source
  later : ∀ edit ∈ cursor.edits, cursor.source ≤ edit.start
  inside : cursor.source ≤ sql.length
  output : cursor.output = (splice (sql.take cursor.source) 0 (front.map Replacing.edit)).length

/-- Up to a point that no edit crosses, both texts are split. -/
theorem splice_at {front rest : List Replacing} {point : Nat} (valid : ValidEdits sql.length 0 (front ++ rest))
    (ended : ∀ edit ∈ front, edit.stop ≤ point) (later : ∀ edit ∈ rest, point ≤ edit.start) :
    splice sql 0 ((front ++ rest).map Replacing.edit) =
      splice (sql.take point) 0 (front.map Replacing.edit) ++ splice sql point (rest.map Replacing.edit) := by
  rw [List.map_append]
  refine splice_append sql (valid.front (List.prefix_append front rest)).ordered (Nat.zero_le _) ?_ ?_
  · intro edit listed
    obtain ⟨replacing, member, rfl⟩ := List.mem_map.mp listed
    exact ended replacing member
  · intro edit listed
    obtain ⟨replacing, member, rfl⟩ := List.mem_map.mp listed
    exact later replacing member

/-- The text in front of a point goes on to a later point with the edits between them. -/
theorem splice_take {front own : List Replacing} {point next : Nat} (valid : ValidEdits sql.length 0 (front ++ own))
    (order : point ≤ next)
    (ended : ∀ edit ∈ front, edit.stop ≤ point) (later : ∀ edit ∈ own, point ≤ edit.start) :
    splice (sql.take next) 0 ((front ++ own).map Replacing.edit) =
      splice (sql.take point) 0 (front.map Replacing.edit) ++ splice (sql.take next) point (own.map Replacing.edit) := by
  rw [List.map_append, splice_append (sql.take next) (valid.front (List.prefix_append front own)).ordered
    (Nat.zero_le _), List.take_take,
    min_eq_left order]
  · intro edit listed
    obtain ⟨replacing, member, rfl⟩ := List.mem_map.mp listed
    exact ended replacing member
  · intro edit listed
    obtain ⟨replacing, member, rfl⟩ := List.mem_map.mp listed
    exact later replacing member

theorem splice_tail_le {rest : List Replacing} {point next : Nat} (valid : ValidEdits sql.length point rest)
    (later : ∀ edit ∈ rest, next ≤ edit.start) (order : point ≤ next) (inside : next ≤ sql.length) :
    next - point ≤ (splice sql point (rest.map Replacing.edit)).length := by
  cases rest with
  | nil =>
    rw [List.map_nil, splice, List.length_drop]
    omega
  | cons edit rest =>
    have start := later edit List.mem_cons_self
    have within := valid.within edit List.mem_cons_self
    have proper : edit.start ≤ edit.stop := valid.ordered.2.1
    rw [List.map_cons, splice, List.length_append, List.length_append, List.length_drop, List.length_take]
    change next - point ≤ min edit.start sql.length - point + _ + _
    omega

theorem ValidEdits.behind {length : Nat} {front rest : List Replacing} {point : Nat}
    (valid : ValidEdits length 0 (front ++ rest))
    (later : ∀ edit ∈ rest, point ≤ edit.start) : ValidEdits length point rest := by
  have whole : ∀ (front : List Replacing) (cursor : Nat), ValidEdits length cursor (front ++ rest) →
      ∃ reached, ValidEdits length reached rest := by
    intro front
    induction front with
    | nil => exact fun cursor valid => ⟨cursor, valid⟩
    | cons edit front inductionHypothesis => exact fun cursor valid => inductionHypothesis edit.stop valid.tail
  obtain ⟨reached, valid⟩ := whole front 0 valid
  refine ⟨valid.present, ?_, valid.within⟩
  cases rest with
  | nil => trivial
  | cons edit rest => exact ⟨later edit List.mem_cons_self, valid.ordered.2⟩

variable (valid : ValidEdits sql.length 0 edits) (fits : (splice sql 0 (edits.map Replacing.edit)).length ≤ sizeMax)

include valid fits

theorem CursorAt.arrive {front : List Replacing} {cursor : SurfaceCursor} (here : CursorAt sql edits front cursor)
    {point : Nat}
    (order : cursor.source ≤ point) (inside : point ≤ sql.length) (later : ∀ edit ∈ cursor.edits, point ≤ edit.start) :
    ∃ arrived, surfaceArrive point (splice sql 0 (edits.map Replacing.edit)).length cursor = .ok arrived ∧
      CursorAt sql edits front arrived ∧ arrived.edits = cursor.edits ∧ arrived.source = point := by
  have split := here.split
  rw [split] at valid
  have whole := congrArg List.length (splice_at valid here.ended here.later)
  have tail := splice_tail_le (valid.behind here.later) later order inside
  rw [List.length_append, ← here.output, ← split] at whole
  have room : sizeSub (splice sql 0 (edits.map Replacing.edit)).length cursor.output =
      (splice sql 0 (edits.map Replacing.edit)).length - cursor.output := sizeSub_eq (by omega) fits
  refine ⟨⟨cursor.edits, point, cursor.output + (point - cursor.source)⟩, ?_, ⟨split, ?_, later, inside, ?_⟩, rfl, rfl⟩
  · rw [surfaceArrive, room, if_neg (by omega)]
  · exact fun edit member => (here.ended edit member).trans order
  · have onward := @splice_take sql front [] cursor.source point
      (by rw [List.append_nil]; exact valid.front (List.prefix_append _ _)) order
      here.ended nofun
    rw [List.append_nil] at onward
    rw [onward, List.length_append, ← here.output, List.map_nil, splice, List.length_drop, List.length_take]
    simp only []
    omega

/-- One more edit is taken in. -/
theorem CursorAt.take {front rest : List Replacing} {source output : Nat} {edit : Replacing} {content : Text}
    (here : CursorAt sql edits front ⟨edit :: rest, source, output⟩) (isContent : edit.content = some content) :
    output + (edit.start - source + content.length) ≤ (splice sql 0 (edits.map Replacing.edit)).length ∧
      CursorAt sql edits (front ++ [edit]) ⟨rest, edit.stop, output + (edit.start - source + content.length)⟩ := by
  have split : edits = front ++ [edit] ++ rest := by
    rw [here.split, List.append_assoc]
    rfl
  have order : source ≤ edit.start := here.later edit List.mem_cons_self
  have tailValid := (here.split ▸ valid).behind here.later
  have proper : edit.start ≤ edit.stop := tailValid.ordered.2.1
  have within : edit.stop ≤ sql.length := valid.within edit (by rw [here.split]; simp)
  have ended : ∀ other ∈ front ++ [edit], other.stop ≤ edit.stop := by
    intro other member
    rcases List.mem_append.mp member with inFront | isEdit
    · have stop : other.stop ≤ source := here.ended other inFront
      omega
    · rw [List.mem_singleton.mp isEdit]
  have later : ∀ other ∈ rest, edit.stop ≤ other.start := by
    intro other member
    exact (tailValid.ordered.2.2).le_start (List.mem_map_of_mem member)
  have length : output + (edit.start - source + content.length) =
      (splice (sql.take edit.stop) 0 ((front ++ [edit]).map Replacing.edit)).length := by
    have onward := @splice_take sql front [edit] source edit.stop
      ((split ▸ valid).front (List.prefix_append _ _)) (order.trans proper) here.ended (by simpa using order)
    have isOutput : output = (splice (sql.take source) 0 (front.map Replacing.edit)).length := here.output
    rw [onward, List.length_append, ← isOutput, List.map_singleton, splice, splice, List.length_append, List.length_append,
      List.length_drop, List.length_drop, List.length_take, List.length_take, Replacing.edit, isContent, Option.getD_some]
    simp only []
    omega
  refine ⟨?_, split, ended, later, within, length⟩
  rw [length]
  conv_rhs => rw [split, splice_at (split ▸ valid) ended later, List.length_append]
  exact Nat.le_add_right _ _

/-- Between two boundaries that no edit crosses the cursor takes in the edits between them, and an insertion at the
second where it is included. -/
theorem surfaceAdvance_ok (includes : Bool) {rest : List Replacing} {source output : Nat} {front : List Replacing}
    {point : Nat}
    (here : CursorAt sql edits front ⟨rest, source, output⟩) (order : source ≤ point) (inside : point ≤ sql.length)
    (whole : ∀ edit ∈ rest, ¬(edit.start < point ∧ point < edit.stop)) :
    ∃ own cursor, surfaceAdvance point includes (splice sql 0 (edits.map Replacing.edit)).length rest source output =
      .ok cursor ∧
      CursorAt sql edits (front ++ own) cursor ∧ rest = own ++ cursor.edits ∧ cursor.source = point ∧
      (∀ edit ∈ own, edit.start < point ∨ (includes = true ∧ edit.stop ≤ point)) ∧
      ∀ edit ∈ cursor.edits, includes = true → point < edit.stop := by
  induction rest generalizing source output front with
  | nil =>
    obtain ⟨cursor, arrived, at', sameEdits, atPoint⟩ := here.arrive valid fits order inside nofun
    refine ⟨[], cursor, arrived, by rwa [List.append_nil], sameEdits.symm, atPoint, nofun, ?_⟩
    rw [sameEdits]
    nofun
  | cons edit rest inductionHypothesis =>
    have tailValid := (here.split ▸ valid).behind here.later
    have proper : edit.start ≤ edit.stop := tailValid.ordered.2.1
    have startOrder : source ≤ edit.start := here.later edit List.mem_cons_self
    have restLater : ∀ other ∈ rest, edit.stop ≤ other.start ∧ other.start ≤ other.stop := by
      intro other member
      exact ⟨(tailValid.ordered.2.2).le_start (List.mem_map_of_mem member),
        (tailValid.ordered.2.2).le_stop (List.mem_map_of_mem member)⟩
    rw [surfaceAdvance]
    split
    next beyond =>
      have later : ∀ other ∈ edit :: rest, point ≤ other.start := by
        intro other member
        rcases List.mem_cons.mp member with rfl | member
        · omega
        · have := restLater other member
          omega
      obtain ⟨cursor, arrived, at', sameEdits, atPoint⟩ := here.arrive valid fits order inside later
      refine ⟨[], cursor, arrived, by rwa [List.append_nil], sameEdits.symm, atPoint, nofun, fun other member included => ?_⟩
      have headStop : point < edit.stop := by
        subst included
        simp only [Bool.not_true, Bool.false_eq_true, false_or] at beyond
        omega
      rw [sameEdits] at member
      rcases List.mem_cons.mp member with rfl | member
      · exact headStop
      · have := restLater other member
        omega
    next before =>
      have notCrossed := whole edit List.mem_cons_self
      have taken : edit.start < point ∨ (includes = true ∧ edit.stop ≤ point) := by
        cases includes <;> simp at before ⊢ <;> omega
      have ended : edit.stop ≤ point := by omega
      obtain ⟨content, isContent⟩ := Option.isSome_iff_exists.mp (valid.present edit (by rw [here.split]; simp))
      obtain ⟨room, next⟩ := here.take valid fits isContent
      have subtract : sizeSub (splice sql 0 (edits.map Replacing.edit)).length output =
          (splice sql 0 (edits.map Replacing.edit)).length - output := sizeSub_eq (by omega) fits
      rw [isContent]
      dsimp only
      rw [if_neg (by omega), subtract, if_neg (by omega)]
      obtain ⟨own, cursor, advanced, at', split, atPoint, ownTaken, left⟩ :=
        inductionHypothesis next ended fun other member => whole other (List.mem_cons_of_mem _ member)
      refine ⟨edit :: own, cursor, advanced, ?_, by rw [split, List.cons_append], atPoint, ?_, left⟩
      · rwa [List.append_assoc, List.singleton_append] at at'
      · intro other member
        rcases List.mem_cons.mp member with rfl | member
        · exact taken
        · exact ownTaken other member

/-- An edit across a boundary stops the cursor. -/
theorem surfaceAdvance_crossed (includes : Bool) {rest : List Replacing} {source output : Nat}
    {front : List Replacing} {point : Nat}
    (here : CursorAt sql edits front ⟨rest, source, output⟩)
    (crossed : ∃ edit ∈ rest, edit.start < point ∧ point < edit.stop) :
    ∃ message, surfaceAdvance point includes (splice sql 0 (edits.map Replacing.edit)).length rest source output =
      .error (surfaceError message) := by
  induction rest generalizing source output front with
  | nil =>
    obtain ⟨edit, member, -⟩ := crossed
    cases member
  | cons edit rest inductionHypothesis =>
    have tailValid := (here.split ▸ valid).behind here.later
    have startBefore : edit.start < point := by
      obtain ⟨other, member, start, -⟩ := crossed
      rcases List.mem_cons.mp member with rfl | member
      · exact start
      · have order := (tailValid.ordered.2.2).le_start (List.mem_map_of_mem member)
        have proper : edit.start ≤ edit.stop := tailValid.ordered.2.1
        change edit.stop ≤ other.start at order
        omega
    obtain ⟨content, isContent⟩ := Option.isSome_iff_exists.mp (valid.present edit (by rw [here.split]; simp))
    obtain ⟨room, next⟩ := here.take valid fits isContent
    have subtract : sizeSub (splice sql 0 (edits.map Replacing.edit)).length output =
        (splice sql 0 (edits.map Replacing.edit)).length - output := sizeSub_eq (by omega) fits
    rw [surfaceAdvance, if_neg (by omega), isContent]
    dsimp only
    split
    · exact ⟨_, rfl⟩
    next inside =>
      rw [subtract, if_neg (by omega)]
      refine inductionHypothesis next ?_
      obtain ⟨other, member, start, stop⟩ := crossed
      rcases List.mem_cons.mp member with rfl | member
      · omega
      · exact ⟨other, member, start, stop⟩

end advance

/-! ## One unit -/

theorem denotes_middle {ahead text behind whole : Text} {placed : PlacedUnit} (isWhole : whole = ahead ++ text ++ behind)
    (isOffset : placed.currentOffset = ahead.length) (isLength : placed.currentLength = text.length) :
    placed.Denotes whole text := by
  refine ⟨?_, isLength⟩
  rw [bytesFrom, isWhole, isOffset, isLength, List.append_assoc, List.drop_left, List.take_left]

section units

variable {sql : Text} {edits : List Replacing}

/-- Some units are passed, and with them all edits that they hold. -/
structure UnitsPassed (sql : Text) (edits : List Replacing) (earlier : List ControlUnit) (front : List Replacing)
    (cursor : SurfaceCursor) :
    Prop extends CursorAt sql edits front cursor where
  owned : ∀ edit ∈ front, edit.start = cursor.source → ∃ unit ∈ earlier, unit.Holds edit
  free : ∀ edit ∈ cursor.edits, ∀ unit ∈ earlier, ¬unit.Holds edit

theorem ValidEdits.proper {length cursor : Nat} (valid : ValidEdits length cursor edits) {edit : Replacing}
    (member : edit ∈ edits) :
    edit.start ≤ edit.stop :=
  valid.ordered.le_stop (List.mem_map_of_mem member)

theorem filter_split {accepts : Replacing → Bool} {front own rest : List Replacing} (split : edits = front ++ own ++ rest)
    (refused : ∀ edit ∈ front ++ rest, accepts edit = false) (accepted : ∀ edit ∈ own, accepts edit = true) :
    edits.filter accepts = own := by
  rw [split, List.filter_append, List.filter_append, List.filter_eq_nil_iff.mpr, List.filter_eq_self.mpr accepted,
    List.filter_eq_nil_iff.mpr, List.nil_append, List.append_nil]
  · exact fun edit member => ne_true_of_eq_false (refused edit (List.mem_append_right _ member))
  · exact fun edit member => ne_true_of_eq_false (refused edit (List.mem_append_left _ member))

theorem frontEdits_eq {earlier : List ControlUnit} {unit : ControlUnit} {front gap : List Replacing}
    {cursor start : SurfaceCursor}
    (valid : ValidEdits sql.length 0 edits) (passed : UnitsPassed sql edits earlier front cursor)
    (order : cursor.source ≤ unit.sourceOffset)
    (startAt : CursorAt sql edits (front ++ gap) start) (isStart : start.source = unit.sourceOffset)
    (isGap : cursor.edits = gap ++ start.edits)
    (taken : ∀ edit ∈ gap, edit.start < unit.sourceOffset) : frontEdits edits earlier unit = front ++ gap := by
  refine @filter_split edits _ [] (front ++ gap) start.edits startAt.split (fun edit member => ?_) (fun edit member => ?_)
  · rw [List.nil_append] at member
    have later := startAt.later edit member
    have free := passed.free edit (by rw [isGap]; exact List.mem_append_right _ member)
    rw [decide_eq_false_iff_not]
    rintro ⟨-, before | ⟨other, isEarlier, holds⟩⟩
    · omega
    · exact free other isEarlier holds
  · have ended := startAt.ended edit member
    rw [isStart] at ended
    refine decide_eq_true ⟨ended, ?_⟩
    rcases List.mem_append.mp member with inFront | inGap
    · by_cases before : edit.start < unit.sourceOffset
      · exact .inl before
      · have stop := passed.ended edit inFront
        have proper := valid.proper (by rw [passed.split]; exact List.mem_append_left _ inFront)
        exact .inr (passed.owned edit inFront (by omega))
    · exact .inl (taken edit inGap)

theorem ownEdits_eq {earlier : List ControlUnit} {unit : ControlUnit} {front gap own : List Replacing}
    {cursor start stop : SurfaceCursor}
    (valid : ValidEdits sql.length 0 edits) (passed : UnitsPassed sql edits earlier front cursor)
    (order : cursor.source ≤ unit.sourceOffset)
    (startAt : CursorAt sql edits (front ++ gap) start) (isStart : start.source = unit.sourceOffset)
    (isGap : cursor.edits = gap ++ start.edits)
    (taken : ∀ edit ∈ gap, edit.start < unit.sourceOffset) (stopAt : CursorAt sql edits (front ++ gap ++ own) stop)
    (isStop : stop.source = unit.stop) (isOwn : start.edits = own ++ stop.edits)
    (beyond : ∀ edit ∈ stop.edits, unit.stop < edit.stop) :
    ownEdits edits earlier unit = own ∧ (∀ edit ∈ own, unit.Holds edit) := by
  have held : ∀ edit ∈ own, unit.Holds edit := by
    intro edit member
    have later := startAt.later edit (by rw [isOwn]; exact List.mem_append_left _ member)
    have ended := stopAt.ended edit (List.mem_append_right _ member)
    exact ⟨by omega, by omega⟩
  refine ⟨filter_split stopAt.split (fun edit member => ?_) (fun edit member => ?_), held⟩
  · rw [decide_eq_false_iff_not]
    rintro ⟨holds, outside⟩
    rcases List.mem_append.mp member with before | behind
    · have ended := startAt.ended edit before
      have start := holds.1
      rcases List.mem_append.mp before with inFront | inGap
      · have stop := passed.ended edit inFront
        have proper := valid.proper (by rw [passed.split]; exact List.mem_append_left _ inFront)
        obtain ⟨other, isEarlier, otherHolds⟩ := passed.owned edit inFront (by omega)
        exact outside other isEarlier otherHolds
      · have := taken edit inGap
        omega
    · have := beyond edit behind
      have := holds.2
      omega
  · refine decide_eq_true ⟨held edit member, passed.free edit ?_⟩
    rw [isGap, isOwn]
    exact List.mem_append_right _ (List.mem_append_left _ member)

theorem crossed_iff {point : Nat} : Crossed edits point ↔ ∃ edit ∈ edits, edit.start < point ∧ point < edit.stop := by
  constructor
  · rintro ⟨edit, listed, crosses⟩
    obtain ⟨replacing, member, rfl⟩ := List.mem_map.mp listed
    exact ⟨replacing, member, crosses⟩
  · rintro ⟨replacing, member, crosses⟩
    exact ⟨replacing.edit, List.mem_map_of_mem member, crosses⟩

/-- Only an edit that is left can cross a later point. -/
theorem CursorAt.crossed {front : List Replacing} {cursor : SurfaceCursor} (here : CursorAt sql edits front cursor)
    {point : Nat}
    (order : cursor.source ≤ point) (crossed : Crossed edits point) :
    ∃ edit ∈ cursor.edits, edit.start < point ∧ point < edit.stop := by
  obtain ⟨edit, member, start, stop⟩ := crossed_iff.mp crossed
  rw [here.split] at member
  rcases List.mem_append.mp member with inFront | left
  · have := here.ended edit inFront
    omega
  · exact ⟨edit, left, start, stop⟩

theorem CursorAt.whole {front : List Replacing} {cursor : SurfaceCursor} (here : CursorAt sql edits front cursor)
    {point : Nat}
    (notCrossed : ¬Crossed edits point) : ∀ edit ∈ cursor.edits, ¬(edit.start < point ∧ point < edit.stop) := by
  intro edit member crosses
  exact notCrossed (crossed_iff.mpr ⟨edit, by rw [here.split]; exact List.mem_append_right _ member, crosses⟩)

variable (valid : ValidEdits sql.length 0 edits) (fits : (splice sql 0 (edits.map Replacing.edit)).length ≤ sizeMax)
  {earlier : List ControlUnit} {front : List Replacing} {cursor : SurfaceCursor}

include valid fits

/-- The cursor reaches the start of a unit at its place. -/
theorem advance_start (passed : UnitsPassed sql edits earlier front cursor) {unit : ControlUnit}
    (order : cursor.source ≤ unit.sourceOffset)
    (inside : unit.stop ≤ sql.length) (notCrossed : ¬Crossed edits unit.sourceOffset) :
    ∃ gap start, surfaceAdvance unit.sourceOffset false (splice sql 0 (edits.map Replacing.edit)).length cursor.edits
      cursor.source
        cursor.output = .ok start ∧
      CursorAt sql edits (front ++ gap) start ∧ cursor.edits = gap ++ start.edits ∧ start.source = unit.sourceOffset ∧
      (∀ edit ∈ gap, edit.start < unit.sourceOffset) ∧ start.output = unitPlace sql edits earlier unit := by
  have offsetInside : unit.sourceOffset ≤ sql.length := (Nat.le_add_right _ _).trans inside
  obtain ⟨gap, start, advanced, startAt, isGap, isStart, taken, -⟩ :=
    surfaceAdvance_ok valid fits false passed.toCursorAt order
    offsetInside (passed.whole notCrossed)
  have before : ∀ edit ∈ gap, edit.start < unit.sourceOffset := fun edit member =>
    (taken edit member).resolve_right fun included => by cases included.1
  refine ⟨gap, start, advanced, startAt, isGap, isStart, before, ?_⟩
  rw [unitPlace, frontEdits_eq valid passed order startAt isStart isGap before, startAt.output, isStart]

/-- From there it reaches the end of the unit behind the unit's text. -/
theorem advance_stop (passed : UnitsPassed sql edits earlier front cursor) {unit : ControlUnit}
    (order : cursor.source ≤ unit.sourceOffset)
    (inside : unit.stop ≤ sql.length) {gap : List Replacing} {start : SurfaceCursor}
    (startAt : CursorAt sql edits (front ++ gap) start)
    (isGap : cursor.edits = gap ++ start.edits) (isStart : start.source = unit.sourceOffset)
    (before : ∀ edit ∈ gap, edit.start < unit.sourceOffset) (notCrossed : ¬Crossed edits unit.stop) :
    ∃ behind stop, surfaceAdvance unit.stop true (splice sql 0 (edits.map Replacing.edit)).length start.edits start.source
        start.output = .ok stop ∧
      UnitsPassed sql edits (earlier ++ [unit]) (front ++ gap ++ ownEdits edits earlier unit) stop ∧ stop.source = unit.stop ∧
      stop.output = start.output + (unitText sql edits earlier unit).length ∧
      ∃ ahead, ahead.length = start.output ∧
        splice sql 0 (edits.map Replacing.edit) = ahead ++ unitText sql edits earlier unit ++ behind := by
  have startOrder : start.source ≤ unit.stop := isStart ▸ Nat.le_add_right _ _
  obtain ⟨own, stop, advanced, stopAt, isOwn, isStop, taken, left⟩ :=
    surfaceAdvance_ok valid fits true startAt startOrder inside
    (startAt.whole notCrossed)
  have beyond : ∀ edit ∈ stop.edits, unit.stop < edit.stop := fun edit member => left edit member rfl
  obtain ⟨own_eq, held⟩ := ownEdits_eq valid passed order startAt isStart isGap before stopAt isStop isOwn beyond
  have ownValid : ValidEdits sql.length 0 (front ++ gap ++ own) := (stopAt.split ▸ valid).front (List.prefix_append _ _)
  have ownLater : ∀ edit ∈ own, start.source ≤ edit.start := by
    intro edit member
    exact startAt.later edit (by rw [isOwn]; exact List.mem_append_left _ member)
  have upTo := splice_take ownValid startOrder startAt.ended ownLater
  have stopOutput : stop.output = start.output + (unitText sql edits earlier unit).length := by
    rw [stopAt.output, isStop, upTo, List.length_append, ← startAt.output, unitText, own_eq, isStart]
  refine ⟨splice sql unit.stop (stop.edits.map Replacing.edit), stop, advanced, ⟨own_eq.symm ▸ stopAt, ?_, ?_⟩,
    isStop, stopOutput,
    splice (sql.take start.source) 0 ((front ++ gap).map Replacing.edit), startAt.output.symm, ?_⟩
  · intro edit member atStop
    rw [own_eq] at member
    rw [isStop] at atStop
    have unitOrder : unit.sourceOffset ≤ unit.stop := Nat.le_add_right _ _
    rcases List.mem_append.mp member with ahead | inOwn
    · have ended := startAt.ended edit ahead
      have proper := valid.proper (by rw [startAt.split]; exact List.mem_append_left _ ahead)
      rcases List.mem_append.mp ahead with inFront | inGap
      · have frontEnded := passed.ended edit inFront
        obtain ⟨other, isEarlier, holds⟩ := passed.owned edit inFront (by omega)
        exact ⟨other, List.mem_append_left _ isEarlier, holds⟩
      · have := before edit inGap
        omega
    · exact ⟨unit, List.mem_append_right _ (List.mem_singleton.mpr rfl), held edit inOwn⟩
  · intro edit member other listed holds
    rcases List.mem_append.mp listed with isEarlier | isUnit
    · refine passed.free edit ?_ other isEarlier holds
      rw [isGap, isOwn]
      exact List.mem_append_right _ (List.mem_append_right _ member)
    · rw [List.mem_singleton.mp isUnit] at holds
      have := beyond edit member
      have := holds.2
      omega
  · have later := stopAt.later
    have ended := stopAt.ended
    rw [isStop] at later ended
    conv_lhs => rw [stopAt.split, splice_at (stopAt.split ▸ valid) ended later]
    rw [upTo, unitText, own_eq, isStart]

/-! ## All units -/

/-- The loop over the units: it goes through where no boundary is crossed, and what it stores it stores up to the first
crossed one. -/
theorem projectUnits_spec (passed : UnitsPassed sql edits earlier front cursor) {units : List PlacedUnit}
    (ordered : UnitsFrom sql.length cursor.source (units.map PlacedUnit.unit)) :
    ((∀ placed ∈ units, ¬Crossed edits placed.unit.sourceOffset ∧ ¬Crossed edits placed.unit.stop) →
      (∃ cursor' front', (projectUnits sql.length (splice sql 0 (edits.map Replacing.edit)).length cursor
        units).result = .ok cursor' ∧
        CursorAt sql edits front' cursor') ∧
      (projectUnits sql.length (splice sql 0 (edits.map Replacing.edit)).length cursor units).units.map PlacedUnit.unit =
        units.map PlacedUnit.unit ∧
      ∀ before placed later,
        (projectUnits sql.length (splice sql 0 (edits.map Replacing.edit)).length cursor units).units = before ++
          placed :: later →
        placed.Denotes (splice sql 0 (edits.map Replacing.edit))
          (unitText sql edits (earlier ++ before.map PlacedUnit.unit) placed.unit)) ∧
      ((∃ placed ∈ units, Crossed edits placed.unit.sourceOffset ∨ Crossed edits placed.unit.stop) →
        ∃ message, (projectUnits sql.length (splice sql 0 (edits.map Replacing.edit)).length cursor units).result =
          .error (surfaceError message)) ∧
      ((projectUnits sql.length (splice sql 0 (edits.map Replacing.edit)).length cursor units).units = units ↔
        Settled sql edits earlier units) := by
  induction units generalizing earlier front cursor with
  | nil =>
    refine ⟨fun _ => ⟨⟨cursor, front, rfl, passed.toCursorAt⟩, rfl, fun before placed later none => ?_⟩, ?_,
      iff_of_true rfl trivial⟩
    · cases before <;> cases none
    · rintro ⟨placed, member, -⟩
      cases member
  | cons placed units inductionHypothesis =>
    -- the first crossed boundary ends the loop: the start of the unit, then its stop, then those of the later units
    have order : cursor.source ≤ placed.unit.sourceOffset := ordered.1
    have inside : placed.unit.stop ≤ sql.length := UnitsFrom.le ordered.2
    have inRange : ¬(placed.unit.sourceOffset > sql.length ∨
      placed.unit.sourceLength > sql.length - placed.unit.sourceOffset) := by
      unfold ControlUnit.stop at inside
      omega
    rw [projectUnits, if_neg inRange, Settled]
    by_cases startCrossed : Crossed edits placed.unit.sourceOffset
    · obtain ⟨message, failed⟩ := surfaceAdvance_crossed valid fits false passed.toCursorAt
        (passed.crossed order startCrossed)
      rw [failed]
      refine ⟨fun free => absurd startCrossed (free placed List.mem_cons_self).1, fun _ => ⟨message, rfl⟩,
        iff_of_true rfl (.inl startCrossed)⟩
    obtain ⟨gap, start, advanced, startAt, isGap, isStart, before, isPlace⟩ :=
      advance_start valid fits passed order inside startCrossed
    rw [advanced]
    dsimp only
    by_cases stopCrossed : Crossed edits placed.unit.stop
    · have startOrder : start.source ≤ placed.unit.stop := isStart ▸ Nat.le_add_right _ _
      obtain ⟨message, failed⟩ := surfaceAdvance_crossed valid fits true startAt (startAt.crossed startOrder stopCrossed)
      rw [failed]
      refine ⟨fun free => absurd stopCrossed (free placed List.mem_cons_self).2, fun _ => ⟨message, rfl⟩, ?_⟩
      rw [isPlace]
      constructor
      -- the offset is stored before the stop fails, the length is not
      · intro same
        have isPlaced := congrArg PlacedUnit.currentOffset (List.cons.inj same).1
        exact .inr ⟨isPlaced.symm, .inl stopCrossed⟩
      · rintro (crossed | ⟨isPlaced, -⟩)
        · exact absurd crossed startCrossed
        · rw [← isPlaced]
    obtain ⟨behind, stop, reached, stopPassed, isStop, isOutput, ahead, aheadLength, isWhole⟩ :=
      advance_stop valid fits passed order inside startAt isGap isStart before stopCrossed
    rw [reached]
    dsimp only
    have length : stop.output - start.output = (unitText sql edits earlier placed.unit).length := by
      rw [isOutput, Nat.add_sub_cancel_left]
    obtain ⟨through, failing, settled⟩ := inductionHypothesis stopPassed (isStop ▸ ordered.2)
    refine ⟨fun free => ?_, ?_, ?_⟩
    · obtain ⟨arrived, sameUnits, denoted⟩ := through fun other member => free other (List.mem_cons_of_mem _ member)
      refine ⟨arrived, by rw [List.map_cons, List.map_cons, sameUnits], fun front found later isSplit => ?_⟩
      -- the unit itself, or one that the induction hypothesis covers
      cases front with
      | nil =>
        have isFound := (List.cons.inj isSplit).1
        rw [← isFound, List.map_nil, List.append_nil]
        exact denotes_middle isWhole aheadLength.symm length
      | cons head front =>
        obtain ⟨isHead, isTail⟩ := List.cons.inj isSplit
        have behindHead := denoted front found later isTail
        rwa [List.append_assoc, show [placed.unit] ++ front.map PlacedUnit.unit = (head :: front).map PlacedUnit.unit by
          rw [← isHead]; rfl] at behindHead
    · rintro ⟨other, member, crossed⟩
      rcases List.mem_cons.mp member with rfl | member
      · exact absurd crossed (not_or.mpr ⟨startCrossed, stopCrossed⟩)
      · exact failing ⟨other, member, crossed⟩
    · rw [isPlace, ← isPlace, length, isPlace]
      constructor
      · intro same
        obtain ⟨isPlaced, isUnits⟩ := List.cons.inj same
        exact .inr ⟨(congrArg PlacedUnit.currentOffset isPlaced).symm,
          .inr ⟨(congrArg PlacedUnit.currentLength isPlaced).symm,
          settled.mp isUnits⟩⟩
      · rintro (crossed | ⟨isPlaced, crossed | ⟨isLength, isUnits⟩⟩)
        · exact absurd crossed startCrossed
        · exact absurd crossed stopCrossed
        · rw [settled.mpr isUnits, ← isPlaced, ← isLength]

end units

/-- The projection agrees with splicing exactly where no edit crosses a boundary of a unit, or the units in front of the first
crossed boundary are already in their new places. -/
theorem projection_agrees_iff {sql : Text} {edits : List SourceEdit} {units : List PlacedUnit}
    (valid : ValidEdits sql.length 0 (edits.map SourceEdit.replacing))
    (ordered : UnitsFrom sql.length 0 (units.map PlacedUnit.unit))
    (fits : (restored sql (edits.map SourceEdit.replacing)).length ≤ sizeMax) :
    ProjectionAgrees sql (edits.map SourceEdit.replacing) units
        (controlProjectSurfaceUnits sql.length (restored sql (edits.map SourceEdit.replacing)).length edits units) ↔
      (∀ placed ∈ units, ¬Crossed (edits.map SourceEdit.replacing) placed.unit.sourceOffset ∧
        ¬Crossed (edits.map SourceEdit.replacing) placed.unit.stop) ∨
      Settled sql (edits.map SourceEdit.replacing) [] units := by
  have passed : UnitsPassed sql (edits.map SourceEdit.replacing) [] [] ⟨edits.map SourceEdit.replacing, 0, 0⟩ := by
    refine ⟨⟨rfl, (fun _ same => by cases same), fun _ _ => Nat.zero_le _, Nat.zero_le _, ?_⟩,
      (fun _ same => by cases same), by simp⟩
    rw [List.map_nil, splice, List.drop_zero, List.take_zero]
    rfl
  obtain ⟨through, failing, settled⟩ := projectUnits_spec valid fits passed ordered
  unfold controlProjectSurfaceUnits restored
  dsimp only
  by_cases free : ∀ placed ∈ units, ¬Crossed (edits.map SourceEdit.replacing) placed.unit.sourceOffset ∧
      ¬Crossed (edits.map SourceEdit.replacing) placed.unit.stop
  · refine iff_of_true ?_ (.inl free)
    obtain ⟨⟨cursor, front, projected, here⟩, sameUnits, denoted⟩ := through free
    rw [projected]
    dsimp only
    have whole : ∀ edit ∈ cursor.edits, ¬(edit.start < sql.length ∧ sql.length < edit.stop) := by
      intro edit member crosses
      have := valid.within edit (by rw [here.split]; exact List.mem_append_right _ member)
      omega
    obtain ⟨own, final, advanced, finalAt, -, atEnd, -, left⟩ :=
      surfaceAdvance_ok valid fits true here here.inside le_rfl whole
    have noneLeft : final.edits = [] := by
      refine List.eq_nil_iff_forall_not_mem.mpr fun edit member => ?_
      have := left edit member rfl
      have := valid.within edit (by rw [finalAt.split]; exact List.mem_append_right _ member)
      omega
    have isOutput : final.output = (splice sql 0 ((edits.map SourceEdit.replacing).map Replacing.edit)).length := by
      have split := finalAt.split
      rw [noneLeft, List.append_nil] at split
      rw [finalAt.output, atEnd, List.take_length, ← split]
    rw [advanced]
    dsimp only
    rw [if_neg (by simp [noneLeft, isOutput])]
    exact ⟨iff_of_true rfl free, fun _ => ⟨sameUnits, denoted⟩, fun failed => absurd rfl failed⟩
  · have crossed : ∃ placed ∈ units, Crossed (edits.map SourceEdit.replacing) placed.unit.sourceOffset ∨
        Crossed (edits.map SourceEdit.replacing) placed.unit.stop := by
      by_contra none
      refine free fun placed member => ?_
      rw [← not_or]
      exact fun crossed => none ⟨placed, member, crossed⟩
    obtain ⟨message, failed⟩ := failing crossed
    rw [failed, or_iff_right free, ← settled]
    dsimp only
    constructor
    · exact fun agrees => agrees.kept (fun same => by cases same)
    · exact fun kept => ⟨iff_of_false (fun same => by cases same) free, (fun same => by cases same), fun _ => kept⟩

/-- An edit inside the condition of `IF a=1 SELECT x;`, and one that takes the start of the statement with it. -/
def crossingEdits : List SourceEdit :=
  [⟨3, 4, some (ascii "bb")⟩, ⟨6, 8, some (ascii " ")⟩]

/-- The units of the text at their first places. -/
def unmovedUnits : List PlacedUnit :=
  [⟨⟨.condition, 0, 3, 3⟩, 3, 3⟩, ⟨⟨.statement, 1, 7, 8⟩, 7, 8⟩]

theorem crossingEdits_valid : ValidEdits 16 0 (crossingEdits.map SourceEdit.replacing) where
  present := by decide +kernel
  ordered := by
    refine ⟨?_, ?_, ?_, ?_, trivial⟩ <;> decide
  within := by decide +kernel

theorem unmovedUnits_ordered : UnitsFrom 16 0 (unmovedUnits.map PlacedUnit.unit) := by
  exact ⟨by decide, by decide, (by decide : 15 ≤ 16)⟩

theorem projection_agrees_crossing :
    ProjectionAgrees (ascii "IF a=1 SELECT x;") (crossingEdits.map SourceEdit.replacing) unmovedUnits
        (controlProjectSurfaceUnits 16 (restored (ascii "IF a=1 SELECT x;") (crossingEdits.map SourceEdit.replacing)).length
          crossingEdits unmovedUnits) ↔
      (∀ placed ∈ unmovedUnits, ¬Crossed (crossingEdits.map SourceEdit.replacing) placed.unit.sourceOffset ∧
        ¬Crossed (crossingEdits.map SourceEdit.replacing) placed.unit.stop) ∨
      Settled (ascii "IF a=1 SELECT x;") (crossingEdits.map SourceEdit.replacing) [] unmovedUnits :=
  @projection_agrees_iff (ascii "IF a=1 SELECT x;") crossingEdits unmovedUnits crossingEdits_valid
    unmovedUnits_ordered (by decide +kernel)

/-- The new text has 16 bytes as well; the call fails at the second unit and has stored the new length of the first one. -/
theorem projection_crossing_stores :
    (restored (ascii "IF a=1 SELECT x;") (crossingEdits.map SourceEdit.replacing)).length = 16 ∧
      (controlProjectSurfaceUnits 16 16 crossingEdits unmovedUnits).result =
        .error (surfaceError "control surface edit crosses a unit boundary") ∧
      ¬ProjectionAgrees (ascii "IF a=1 SELECT x;") (crossingEdits.map SourceEdit.replacing) unmovedUnits
        (controlProjectSurfaceUnits 16 16 crossingEdits unmovedUnits) := by
  have failed : (controlProjectSurfaceUnits 16 16 crossingEdits unmovedUnits).result =
      .error (surfaceError "control surface edit crosses a unit boundary") := rfl
  have stored : (controlProjectSurfaceUnits 16 16 crossingEdits unmovedUnits).units =
      [⟨⟨.condition, 0, 3, 3⟩, 3, 4⟩, ⟨⟨.statement, 1, 7, 8⟩, 7, 8⟩] := rfl
  refine ⟨by decide +kernel, failed, fun agrees => ?_⟩
  have kept := agrees.kept (by rw [failed]; nofun)
  rw [stored] at kept
  exact absurd kept (by decide)

end SqlParser.Core
