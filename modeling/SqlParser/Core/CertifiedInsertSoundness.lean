import SqlParser.Core.CertifiedInsertReaders

/-! # Strings replaced in place keep the certificate of an INSERT

The source and its spliced text are read side by side. The edits that end in front of a place are
consumed, the other ones start at or behind it, and the rests of the two texts differ by the edits
that are left.
-/

namespace SqlParser.Core

open SqlParser.PgQuery
open SqlParser.Library.Splice

/-! ## Places -/

/-- Where a rest stands in the source. -/
def place (sql rest : Text) : Nat :=
  sql.length - rest.length

theorem int32Position_toInt {sql : Text} (short : sql.length ≤ int32Max) (rest : Text) :
    (int32Position sql rest).toInt = place sql rest := by
  rw [int32Max] at short
  rw [int32Position, Int32.toInt_ofNat_of_lt (by omega), place]

theorem drop_place {sql rest : Text} (suffix : rest <:+ sql) : sql.drop (place sql rest) = rest := by
  obtain ⟨piece, rfl⟩ := suffix
  rw [place, List.length_append, Nat.add_sub_cancel, List.drop_left]

theorem place_append {sql piece after : Text} (suffix : piece ++ after <:+ sql) :
    place sql (piece ++ after) + piece.length = place sql after := by
  have := suffix.length_le
  rw [List.length_append] at this
  rw [place, place, List.length_append]
  omega

theorem place_head {sql rest : Text} (suffix : rest <:+ sql) : sql[place sql rest]? = rest.head? := by
  rw [← drop_place suffix, List.head?_drop, drop_place suffix]

/-- The place of the cell as `consumeCell` reads it. -/
theorem located_place {sql : Text} (short : sql.length ≤ int32Max) {rest : Text} {location : Int32}
    (located : location = int32Position sql rest) : (location.toInt % 2 ^ 64).toNat = place sql rest := by
  have bound : place sql rest ≤ sql.length := Nat.sub_le _ _
  rw [int32Max] at short
  rw [located, int32Position_toInt (by rw [int32Max]; exact short)]
  omega

/-! ## Spans -/

/-- The place of a string cell, from its opening quote to behind its closing one. -/
def nodeSpans : Option InsertAst.CellNode → List (Nat × Nat)
  | some ⟨.aConst (some cell), _⟩ =>
    match cell.val with
    | .sval (some ⟨some text, _, _⟩) => [(cell.location.toInt.toNat, cell.location.toInt.toNat + text.length + 2)]
    | _ => []
  | _ => []

def cellSpans (cells : List (Option InsertAst.CellNode)) : List (Nat × Nat) :=
  cells.flatMap nodeSpans

def rowSpans (rows : List (Option InsertAst.RowNode)) : List (Nat × Nat) :=
  rows.flatMap fun row => cellSpans (certifiedRowItems row)

/-- The spans stand between two places of the source, one behind the other, and each starts with a quote. -/
structure SpansBetween (sql : Text) (start stop : Nat) (spans : List (Nat × Nat)) : Prop where
  le : start ≤ stop
  within : ∀ span ∈ spans, start ≤ span.1 ∧ span.1 < span.2 ∧ span.2 ≤ stop ∧ sql[span.1]? = some 39
  ordered : spans.Pairwise fun left right => left.2 ≤ right.1

theorem SpansBetween.nil {sql : Text} {start stop : Nat} (le : start ≤ stop) : SpansBetween sql start stop [] :=
  ⟨le, by simp, .nil⟩

theorem SpansBetween.append {sql : Text} {start middle stop : Nat} {left right : List (Nat × Nat)}
    (first : SpansBetween sql start middle left) (second : SpansBetween sql middle stop right) :
    SpansBetween sql start stop (left ++ right) := by
  have firstLe := first.le
  have secondLe := second.le
  refine ⟨by omega, ?_, ?_⟩
  · intro span member
    obtain inLeft | inRight := List.mem_append.mp member
    · obtain ⟨low, proper, high, quoted⟩ := first.within span inLeft
      exact ⟨low, proper, by omega, quoted⟩
    · obtain ⟨low, proper, high, quoted⟩ := second.within span inRight
      exact ⟨by omega, proper, high, quoted⟩
  · rw [List.pairwise_append]
    refine ⟨first.ordered, second.ordered, fun span inLeft other inRight => ?_⟩
    have := (first.within span inLeft).2.2.1
    have := (second.within other inRight).1
    omega

/-- A gap or a punctuation mark in front. -/
theorem SpansBetween.after {sql : Text} {start middle stop : Nat} {spans : List (Nat × Nat)} (le : start ≤ middle)
    (held : SpansBetween sql middle stop spans) : SpansBetween sql start stop spans :=
  (SpansBetween.nil le).append held

theorem nodeSpans_read {sql rest after : Text} {cell : InsertAst.AConst} {gap body : Text} {string : Nat}
    (unknownFields : Text) (short : sql.length ≤ int32Max) (suffix : rest <:+ sql)
    (held : CellRead sql rest after cell gap body string) :
    SpansBetween sql (place sql rest) (place sql after) (nodeSpans (some ⟨.aConst (some cell), unknownFields⟩)) ∧
      string = (nodeSpans (some ⟨.aConst (some cell), unknownFields⟩)).length := by
  have bodySuffix : body ++ after <:+ sql := by
    apply List.IsSuffix.trans _ suffix
    exact ⟨gap, by rw [held.split, List.append_assoc]⟩
  have behind := place_append bodySuffix
  have front : place sql rest + gap.length = place sql (body ++ after) := by
    rw [held.split, List.append_assoc] at suffix ⊢
    exact place_append suffix
  have location : cell.location.toInt.toNat = place sql (body ++ after) := by
    rw [held.located, int32Position_toInt short, Int.toNat_natCast]
  have value := held.value
  simp only [nodeSpans, location]
  generalize cell.val = val at value
  cases value with
  | string content unknown plain =>
    have starts := place_head bodySuffix
    simp only [List.length_cons, List.length_append, List.length_nil] at behind
    refine ⟨⟨by omega, ?_, List.pairwise_singleton _ _⟩, rfl⟩
    intro span member
    rw [List.mem_singleton.mp member]
    exact ⟨by simp only []; omega, by simp only []; omega, by simp only []; omega, starts⟩
  | number => exact ⟨.nil (by omega), rfl⟩

/-- The reader of a mark takes a piece of the source. -/
theorem mark_place {sql rest after : Text} {mark : UInt8} (suffix : rest <:+ sql)
    (read : certifiedPunctuation mark rest = some after) (notSlash : mark ≠ 47) (notDash : mark ≠ 45) :
    after <:+ sql ∧ place sql rest ≤ place sql after := by
  obtain ⟨gap, rfl, _⟩ := certifiedPunctuation_piece read notSlash notDash
  have := place_append suffix
  exact ⟨(List.suffix_append _ _).trans suffix, by omega⟩

theorem cellMark_plain (last : Prop) [Decidable last] : (if last then 41 else 44 : UInt8) ≠ 47 ∧
    (if last then 41 else 44 : UInt8) ≠ 45 := by
  split <;> decide

theorem cellSpans_read {sql : Text} (short : sql.length ≤ int32Max) {cells : List (Option InsertAst.CellNode)}
    {rest after : Text} {strings total : Nat} (suffix : rest <:+ sql)
    (read : certifiedCells sql cells (rest, strings) = some (after, total)) :
    after <:+ sql ∧ SpansBetween sql (place sql rest) (place sql after) (cellSpans cells) ∧
      total = strings + (cellSpans cells).length := by
  induction cells generalizing rest strings with
  | nil =>
    cases read
    exact ⟨suffix, .nil le_rfl, rfl⟩
  | cons node cells inductionHypothesis =>
    simp only [certifiedCells, Option.bind_eq_bind, Option.bind_eq_some_iff, Prod.exists] at read
    obtain ⟨middle, string, cellRead, next, marked, behind⟩ := read
    obtain ⟨cell, unknownFields, gap, body, rfl, held⟩ := certifiedCell_piece cellRead
    obtain ⟨here, count⟩ := nodeSpans_read unknownFields short suffix held
    have middleSuffix : middle <:+ sql := by
      rw [held.split] at suffix
      exact (List.suffix_append _ _).trans suffix
    obtain ⟨nextSuffix, le⟩ := mark_place middleSuffix marked (cellMark_plain _).1 (cellMark_plain _).2
    obtain ⟨afterSuffix, spans, totals⟩ := inductionHypothesis nextSuffix behind
    refine ⟨afterSuffix, here.append (spans.after le), ?_⟩
    rw [cellSpans, List.flatMap_cons, List.length_append, ← count, totals, cellSpans]
    omega

theorem rowSpans_read {sql : Text} (short : sql.length ≤ int32Max) {rows : List (Option InsertAst.RowNode)}
    {rest after : Text} {strings total : Nat} (suffix : rest <:+ sql)
    (read : certifiedRowsOf sql rows (rest, strings) = some (after, total)) :
    after <:+ sql ∧ SpansBetween sql (place sql rest) (place sql after) (rowSpans rows) ∧
      total = strings + (rowSpans rows).length := by
  induction rows generalizing rest strings with
  | nil =>
    cases read
    exact ⟨suffix, .nil le_rfl, rfl⟩
  | cons row rows inductionHypothesis =>
    simp only [certifiedRowsOf, Option.bind_eq_bind, Option.bind_eq_some_iff, Prod.exists] at read
    obtain ⟨first, opened, middle, count, cellsRead, next, separated, behind⟩ := read
    obtain ⟨firstSuffix, firstLe⟩ := mark_place suffix opened (by decide) (by decide)
    obtain ⟨middleSuffix, here, counted⟩ := cellSpans_read short firstSuffix cellsRead
    have nextPlace : next <:+ sql ∧ place sql middle ≤ place sql next := by
      rw [certifiedSeparator] at separated
      split at separated
      next =>
        cases separated
        exact ⟨middleSuffix, le_rfl⟩
      next => exact mark_place middleSuffix separated (by decide) (by decide)
    obtain ⟨afterSuffix, spans, totals⟩ := inductionHypothesis nextPlace.1 behind
    refine ⟨afterSuffix, (here.after firstLe).append (spans.after nextPlace.2), ?_⟩
    rw [rowSpans, List.flatMap_cons, List.length_append, totals, counted, rowSpans]
    omega

/-! ## The two texts side by side -/

/-- An edit of a string literal of the source by another plain one. -/
structure QuotedEdit (sql : Text) (edit : SourceEdit) : Prop where
  starts : sql[edit.sourceStart]? = some 39
  proper : edit.sourceStart < edit.sourceEnd
  replacement : ∃ content, edit.replacement = some (39 :: content ++ [39]) ∧ PlainContent content

def deltaOf (edits : List SourceEdit) : Int :=
  (edits.map rebaseEditDelta).sum

theorem deltaOf_append (left right : List SourceEdit) : deltaOf (left ++ right) = deltaOf left + deltaOf right := by
  rw [deltaOf, List.map_append, List.sum_append, deltaOf, deltaOf]

/-- The rests of the source and of the spliced text at the same place, with the edits in front of it and
the edits behind. -/
structure SpliceAt (sql spliced : Text) (done remaining : List SourceEdit) (rest image : Text) : Prop where
  suffix : rest <:+ sql
  imageSuffix : image <:+ spliced
  spelled : image = splice sql (place sql rest) (remaining.map SourceEdit.spliceEdit)
  ordered : Ordered (place sql rest) (remaining.map SourceEdit.spliceEdit)
  shifted : (place spliced image : Int) = place sql rest + deltaOf done
  ended : ∀ edit ∈ done, edit.sourceEnd ≤ place sql rest

section SpliceAt

variable {sql spliced : Text} {done remaining : List SourceEdit}

theorem ordered_behind {cursor point : Nat} {edits : List SourceEdit}
    (ordered : Ordered cursor (edits.map SourceEdit.spliceEdit)) (behind : ∀ edit ∈ edits, point ≤ edit.sourceStart) :
    Ordered point (edits.map SourceEdit.spliceEdit) := by
  cases edits with
  | nil => trivial
  | cons edit edits => exact ⟨behind edit List.mem_cons_self, ordered.2⟩

/-- The spliced rest starts as the rest of the source, because a string replaces a string. -/
theorem splice_head {point : Nat} (quoted : ∀ edit ∈ remaining, QuotedEdit sql edit)
    (behind : ∀ edit ∈ remaining, point ≤ edit.sourceStart) :
    (splice sql point (remaining.map SourceEdit.spliceEdit)).head? = sql[point]? := by
  cases remaining with
  | nil => rw [List.map_nil, splice, List.head?_drop]
  | cons edit edits =>
    have held := quoted edit List.mem_cons_self
    have start := behind edit List.mem_cons_self
    obtain ⟨content, replacement, _⟩ := held.replacement
    rw [List.map_cons, splice, spliceEdit_start, List.append_assoc, List.head?_append, List.head?_drop]
    by_cases here : point = edit.sourceStart
    · have short : (sql.take edit.sourceStart)[point]? = none := by
        rw [List.getElem?_eq_none_iff, List.length_take]
        omega
      rw [short, Option.none_or, List.head?_append, SourceEdit.spliceEdit, replacement, here, held.starts]
      rfl
    · have taken : (sql.take edit.sourceStart)[point]? = sql[point]? := List.getElem?_take_of_lt (by omega)
      have inside : point < sql.length := by
        have := (List.getElem?_eq_some_iff.mp held.starts).1
        omega
      rw [taken, List.getElem?_eq_getElem inside, Option.some_or]

/-- A piece without edits is in both texts. -/
theorem SpliceAt.advance {piece after image : Text} (held : SpliceAt sql spliced done remaining (piece ++ after) image)
    (quoted : ∀ edit ∈ remaining, QuotedEdit sql edit) (behind : ∀ edit ∈ remaining, place sql after ≤ edit.sourceStart) :
    ∃ other, image = piece ++ other ∧ SpliceAt sql spliced done remaining after other ∧ other.head? = after.head? := by
  have suffix : after <:+ sql := (List.suffix_append _ _).trans held.suffix
  have forward := place_append held.suffix
  have taken : (sql.take (place sql after)).drop (place sql (piece ++ after)) = piece := by
    rw [List.drop_take, drop_place held.suffix, ← forward, Nat.add_sub_cancel_left, List.take_left]
  have split : image = piece ++ splice sql (place sql after) (remaining.map SourceEdit.spliceEdit) := by
    have later : ∀ edit ∈ remaining.map SourceEdit.spliceEdit, place sql after ≤ edit.start := by
      intro edit member
      obtain ⟨source, inRemaining, rfl⟩ := List.mem_map.mp member
      exact behind source inRemaining
    have parts := @splice_append _ sql (place sql (piece ++ after)) _ [] _ trivial (by omega) (by simp) later
    rw [held.spelled, ← List.nil_append (remaining.map SourceEdit.spliceEdit), parts, splice, taken, List.nil_append]
  refine ⟨_, split, ⟨suffix, ?_, rfl, ordered_behind held.ordered behind, ?_, ?_⟩, ?_⟩
  · have := held.imageSuffix
    rw [split] at this
    exact (List.suffix_append _ _).trans this
  · have imageSuffix := held.imageSuffix
    have shifted := held.shifted
    rw [split] at imageSuffix shifted
    have := place_append imageSuffix
    omega
  · intro edit member
    have := held.ended edit member
    omega
  · rw [splice_head quoted behind, place_head suffix]

/-- A literal that is edited stands in the spliced text as its replacement. -/
theorem SpliceAt.replace {edit : SourceEdit} {gap body after image : Text}
    (held : SpliceAt sql spliced done (edit :: remaining) (gap ++ body ++ after) image)
    (quoted : ∀ edit ∈ remaining, QuotedEdit sql edit) (start : edit.sourceStart = place sql (body ++ after))
    (stop : edit.sourceEnd = place sql after) :
    ∃ other, image = gap ++ edit.replacement.getD [] ++ other ∧
      SpliceAt sql spliced (done ++ [edit]) remaining after other ∧ other.head? = after.head? := by
  have suffix : after <:+ sql := (List.suffix_append _ _).trans held.suffix
  have bodySuffix : body ++ after <:+ sql := by
    apply List.IsSuffix.trans _ held.suffix
    exact ⟨gap, by rw [List.append_assoc]⟩
  have whole := held.suffix
  rw [List.append_assoc] at whole
  have front := place_append whole
  have forward := place_append bodySuffix
  have taken : (sql.take edit.sourceStart).drop (place sql (gap ++ (body ++ after))) = gap := by
    rw [List.drop_take, drop_place whole, start, ← front, Nat.add_sub_cancel_left, List.take_left]
  have split : image = gap ++ edit.replacement.getD [] ++ splice sql (place sql after)
    (remaining.map SourceEdit.spliceEdit) := by
    rw [held.spelled, List.map_cons, splice, spliceEdit_start, List.append_assoc gap, taken, ← stop]
    rfl
  have behind : ∀ other ∈ remaining, place sql after ≤ other.sourceStart := by
    intro other member
    rw [← stop]
    exact held.ordered.2.2.le_start (List.mem_map_of_mem member)
  refine ⟨_, split, ⟨suffix, ?_, rfl, ?_, ?_, ?_⟩, ?_⟩
  · have := held.imageSuffix
    rw [split] at this
    exact (List.suffix_append _ _).trans this
  · exact ordered_behind held.ordered.2.2 behind
  · have imageSuffix := held.imageSuffix
    have shifted := held.shifted
    rw [split] at imageSuffix shifted
    have := place_append imageSuffix
    rw [List.length_append] at this
    rw [List.append_assoc] at shifted this
    rw [List.append_assoc gap body after] at shifted
    rw [deltaOf_append, deltaOf, deltaOf, List.map_singleton, List.sum_singleton, rebaseEditDelta,
      SourceEdit.replacementLength]
    rw [deltaOf] at shifted
    omega
  · intro other member
    obtain inDone | same := List.mem_append.mp member
    · have := held.ended other inDone
      rw [List.append_assoc] at this
      omega
    · rw [List.mem_singleton.mp same, stop]
  · rw [splice_head quoted behind, place_head suffix]

end SpliceAt

/-! ## The update of a cell -/

/-- The place of a cell moves by the deltas of the edits that end in front of it. -/
def shiftedLocation (edits : List SourceEdit) (location : Int32) : Int32 :=
  Int32.ofInt (location.toInt + deltaBefore edits (endedEdits edits location.toInt.toNat))

/-- The value of a cell is replaced by the edit that starts at it. -/
def movedValue (edits : List SourceEdit) (cell : InsertAst.AConst) : InsertAst.ConstValue :=
  match edits.find? fun edit => (edit.sourceStart : Int) = cell.location.toInt with
  | some edit => replaceValue cell.val (cString (replacementContent (edit.replacement.getD [])))
  | none => cell.val

def movedNode (edits : List SourceEdit) : Option InsertAst.CellNode → Option InsertAst.CellNode
  | some ⟨.aConst (some cell), unknownFields⟩ =>
    some ⟨.aConst (some { cell with
      location := shiftedLocation edits cell.location
      val := movedValue edits cell }), unknownFields⟩
  | node => node

def movedRow (edits : List SourceEdit) : Option InsertAst.RowNode → Option InsertAst.RowNode
  | some ⟨.list (some ⟨some items, listUnknown⟩), unknownFields⟩ =>
    some ⟨.list (some ⟨some (items.map (movedNode edits)), listUnknown⟩), unknownFields⟩
  | row => row

/-- The state of the update when some edits are consumed: their replacements were moved out. -/
def consumedState (done remaining : List SourceEdit) : ConsumeState :=
  ⟨done.map (fun edit => { edit with replacement := none }) ++ remaining, done.length, deltaOf done⟩

theorem consumedState_next (done remaining : List SourceEdit) :
    (consumedState done remaining).edits[(consumedState done remaining).editIndex]? = remaining.head? := by
  rw [consumedState, List.getElem?_append_right (by rw [List.length_map]), List.length_map, Nat.sub_self,
    List.head?_eq_getElem?]

theorem consumedState_consume (done later : List SourceEdit) (edit : SourceEdit) :
    { edits := (consumedState done (edit :: later)).edits.set (consumedState done (edit :: later)).editIndex
        { edit with replacement := none }
      editIndex := (consumedState done (edit :: later)).editIndex + 1
      delta := deltaOf done + rebaseEditDelta edit : ConsumeState } = consumedState (done ++ [edit]) later := by
  simp only [consumedState, List.map_append, List.map_cons, List.map_nil, List.length_append, List.length_singleton,
    deltaOf_append]
  rw [List.set_append_right _ _ (by rw [List.length_map]), List.length_map, Nat.sub_self, List.set_cons_zero]
  simp [deltaOf]

theorem endedEdits_eq {done remaining : List SourceEdit} {point : Nat} (ended : ∀ edit ∈ done, edit.sourceEnd ≤ point)
    (later : ∀ edit ∈ remaining, point < edit.sourceEnd) : endedEdits (done ++ remaining) point = done.length := by
  rw [endedEdits, List.takeWhile_append_of_pos (by simpa using ended)]
  cases remaining with
  | nil => simp
  | cons edit edits =>
    have := later edit List.mem_cons_self
    rw [List.takeWhile_cons_of_neg (by simpa using this), List.append_nil]

theorem deltaBefore_done (done remaining : List SourceEdit) : deltaBefore (done ++ remaining) done.length = deltaOf done := by
  rw [deltaBefore, List.take_left, deltaOf]

/-- An edit as the span that it replaces. -/
def interval (edit : SourceEdit) : Nat × Nat :=
  (edit.sourceStart, edit.sourceEnd)

theorem interval_between {sql : Text} {start stop : Nat} {spans : List (Nat × Nat)} {edits : List SourceEdit}
    (between : SpansBetween sql start stop spans) (sublist : (edits.map interval).Sublist spans) :
    ∀ edit ∈ edits, start ≤ edit.sourceStart ∧ edit.sourceEnd ≤ stop := by
  intro edit member
  have held := between.within _ (sublist.subset (List.mem_map_of_mem member))
  exact ⟨held.1, held.2.2.1⟩

/-- What the edit makes of a string. -/
theorem QuotedEdit.content {sql : Text} {edit : SourceEdit} (held : QuotedEdit sql edit) :
    PlainContent (cString (replacementContent (edit.replacement.getD []))) ∧
      edit.replacement.getD [] = 39 :: cString (replacementContent (edit.replacement.getD [])) ++ [39] := by
  obtain ⟨content, replacement, plain⟩ := held.replacement
  have inner : replacementContent (edit.replacement.getD []) = content := by
    rw [replacement, Option.getD_some, replacementContent]
    simp
  have whole : cString content = content := by
    rw [cString, List.takeWhile_eq_self_iff]
    intro byte member
    have literal := (plain byte member).1
    simp only [isLiteralByte, Bool.and_eq_true, decide_eq_true_eq] at literal
    simp only [ne_eq, decide_not, Bool.not_eq_true', decide_eq_false_iff_not]
    rintro rfl
    exact absurd literal.1.1 (by decide)
  rw [inner, whole, replacement]
  exact ⟨plain, rfl⟩

section Cell

variable {sql spliced : Text} {done later edits : List SourceEdit} {rest middle image : Text} {cell : InsertAst.AConst}
  {gap body : Text} {string : Nat}

/-- Where a cell stands in both texts. -/
structure CellPlace (sql : Text) (rest middle : Text) (cell : InsertAst.AConst) (body : Text) : Prop where
  old : (cell.location.toInt % 2 ^ 64).toNat = place sql (body ++ middle)
  location : cell.location.toInt = place sql (body ++ middle)
  front : place sql rest ≤ place sql (body ++ middle)
  forward : place sql (body ++ middle) + body.length = place sql middle
  proper : 0 < body.length

theorem CellRead.place (short : sql.length ≤ int32Max) (suffix : rest <:+ sql)
    (held : CellRead sql rest middle cell gap body string) : CellPlace sql rest middle cell body := by
  have bodySuffix : body ++ middle <:+ sql := by
    apply List.IsSuffix.trans _ suffix
    exact ⟨gap, by rw [held.split, List.append_assoc]⟩
  refine ⟨located_place short held.located, ?_, ?_, place_append bodySuffix, ?_⟩
  · rw [held.located, int32Position_toInt short]
  · rw [held.split, List.append_assoc] at suffix ⊢
    have := place_append suffix
    omega
  · obtain ⟨byte, run, whole, _⟩ := held.value.starts
    rw [whole, List.length_cons]
    omega

theorem nodeSpans_cases (unknownFields : Text) (value : CellValue middle cell.val body string) :
    (string = 0 ∧ nodeSpans (some ⟨.aConst (some cell), unknownFields⟩) = []) ∨
    (string = 1 ∧ nodeSpans (some ⟨.aConst (some cell), unknownFields⟩) =
      [(cell.location.toInt.toNat, cell.location.toInt.toNat + body.length)]) := by
  simp only [nodeSpans]
  generalize cell.val = val at value
  cases value with
  | string content => exact .inr ⟨rfl, by simp only [List.length_cons, List.length_append, List.length_nil]; rfl⟩
  | number => exact .inl ⟨rfl, rfl⟩

/-- The new location is the place of the cell in the spliced text. -/
theorem shiftedLocation_eq {remaining : List SourceEdit} {here : Text} (held : CellPlace sql rest middle cell body)
    (ended : ∀ edit ∈ done, edit.sourceEnd ≤ place sql rest)
    (later : ∀ edit ∈ remaining, place sql (body ++ middle) < edit.sourceEnd)
    (shifted : (place spliced here : Int) = place sql (body ++ middle) + deltaOf done) :
    shiftedLocation (done ++ remaining) cell.location = int32Position spliced here ∧
      Int32.ofInt ((place sql (body ++ middle) : Int) + deltaOf done) = int32Position spliced here := by
  have index : endedEdits (done ++ remaining) (place sql (body ++ middle)) = done.length :=
    endedEdits_eq (fun edit member => (ended edit member).trans held.front) later
  have position : Int32.ofInt (place spliced here) = int32Position spliced here := by
    rw [Int32.ofInt_eq_ofNat, int32Position, Core.place]
  refine ⟨?_, by rw [← shifted, position]⟩
  rw [shiftedLocation, held.location, Int.toNat_natCast, index, deltaBefore_done, ← shifted, position]

theorem consumeNode_unedited (unknownFields : Text) (short : sql.length ≤ int32Max)
    (held : CellRead sql rest middle cell gap body string) (beside : SpliceAt sql spliced done later rest image)
    (quoted : ∀ edit ∈ done ++ later, QuotedEdit sql edit) (behind : ∀ edit ∈ later, place sql middle ≤ edit.sourceStart) :
    consumeNode (consumedState done later) (some ⟨.aConst (some cell), unknownFields⟩) =
      (movedNode (done ++ later) (some ⟨.aConst (some cell), unknownFields⟩), consumedState done later) ∧
    ∃ other, certifiedCell spliced (movedNode (done ++ later) (some ⟨.aConst (some cell), unknownFields⟩)) image =
        some (other, string) ∧ SpliceAt sql spliced done later middle other := by
  have located := held.place short beside.suffix
  have forward := located.forward
  have proper := located.proper
  have split := beside
  rw [held.split] at split
  obtain ⟨other, rfl, next, same⟩ := split.advance (fun edit member => quoted edit (List.mem_append_right _ member)) behind
  have imageSuffix := beside.imageSuffix
  rw [List.append_assoc] at imageSuffix
  have ends : ∀ edit ∈ later, place sql (body ++ middle) < edit.sourceEnd := by
    intro edit member
    have := (quoted edit (List.mem_append_right _ member)).proper
    have := behind edit member
    omega
  have shifted : (place spliced (body ++ other) : Int) = place sql (body ++ middle) + deltaOf done := by
    have := place_append ((List.suffix_append _ _).trans imageSuffix)
    have := next.shifted
    omega
  obtain ⟨moved, consumed⟩ := shiftedLocation_eq located beside.ended ends shifted
  have elsewhere : ∀ edit ∈ done ++ later, (edit.sourceStart : Int) ≠ place sql (body ++ middle) := by
    intro edit member
    have edited := (quoted edit member).proper
    obtain inDone | inLater := List.mem_append.mp member
    · have := beside.ended edit inDone
      have := located.front
      omega
    · have := behind edit inLater
      omega
  have value : movedValue (done ++ later) cell = cell.val := by
    rw [movedValue, List.find?_eq_none.mpr]
    intro edit member
    rw [decide_eq_true_eq, located.location]
    exact elsewhere edit member
  have node : movedNode (done ++ later) (some ⟨.aConst (some cell), unknownFields⟩) =
      some ⟨.aConst (some { cell with location := int32Position spliced (body ++ other) }), unknownFields⟩ := by
    rw [movedNode, moved, value]
  rw [node]
  refine ⟨?_, other, ?_, next⟩
  · simp only [consumeNode, consumeCell, consumedState_next, located.old]
    have turn : (consumedState done later).delta = deltaOf done := rfl
    rw [turn, consumed]
    cases first : later.head? with
    | none => rfl
    | some edit =>
      have := elsewhere edit (List.mem_append_right _ (List.mem_of_head? first))
      simp only []
      rw [if_neg (by omega)]
  · exact held.accepts unknownFields spliced other same

theorem consumeNode_edited {edit : SourceEdit} (unknownFields : Text) (short : sql.length ≤ int32Max)
    (held : CellRead sql rest middle cell gap body 1) (beside : SpliceAt sql spliced done (edit :: later) rest image)
    (quoted : ∀ edit' ∈ done ++ edit :: later, QuotedEdit sql edit')
    (span : interval edit = (cell.location.toInt.toNat, cell.location.toInt.toNat + body.length)) :
    consumeNode (consumedState done (edit :: later)) (some ⟨.aConst (some cell), unknownFields⟩) =
      (movedNode (done ++ edit :: later) (some ⟨.aConst (some cell), unknownFields⟩), consumedState (done ++ [edit]) later) ∧
    ∃ other, certifiedCell spliced (movedNode (done ++ edit :: later) (some ⟨.aConst (some cell), unknownFields⟩)) image =
        some (other, 1) ∧ SpliceAt sql spliced (done ++ [edit]) later middle other := by
  have located := held.place short beside.suffix
  have forward := located.forward
  have proper := located.proper
  have start : edit.sourceStart = place sql (body ++ middle) := by
    have := congrArg Prod.fst span
    rw [located.location, Int.toNat_natCast] at this
    exact this
  have stop : edit.sourceEnd = place sql middle := by
    have := congrArg Prod.snd span
    rw [located.location, Int.toNat_natCast, forward] at this
    exact this
  have mine := quoted edit (List.mem_append_right _ List.mem_cons_self)
  obtain ⟨plain, replacement⟩ := mine.content
  have split := beside
  rw [held.split] at split
  obtain ⟨other, rfl, next, same⟩ := split.replace
    (fun other member => quoted other (List.mem_append_right _ (List.mem_cons_of_mem _ member))) start stop
  have imageSuffix := beside.imageSuffix
  rw [List.append_assoc] at imageSuffix
  have shifted : (place spliced (edit.replacement.getD [] ++ other) : Int) = place sql (body ++ middle) + deltaOf done := by
    have image := place_append ((List.suffix_append _ _).trans imageSuffix)
    have moved := next.shifted
    rw [deltaOf_append, deltaOf, deltaOf, List.map_singleton, List.sum_singleton, rebaseEditDelta,
      SourceEdit.replacementLength] at moved
    rw [deltaOf]
    omega
  have ends : ∀ other ∈ edit :: later, place sql (body ++ middle) < other.sourceEnd := by
    intro other member
    have := (quoted other (List.mem_append_right _ member)).proper
    cases member with
    | head => omega
    | tail _ member =>
      have := next.ordered.le_start (List.mem_map_of_mem member)
      rw [spliceEdit_start] at this
      omega
  obtain ⟨moved, consumed⟩ := shiftedLocation_eq located beside.ended ends shifted
  have value : movedValue (done ++ edit :: later) cell =
      replaceValue cell.val (cString (replacementContent (edit.replacement.getD []))) := by
    have found : (done ++ edit :: later).find? (fun edit => (edit.sourceStart : Int) = cell.location.toInt) = some edit := by
      rw [List.find?_append, List.find?_eq_none.mpr, Option.none_or, List.find?_cons_of_pos]
      · rw [decide_eq_true_eq, located.location, start]
      · intro earlier member
        have := (quoted earlier (List.mem_append_left _ member)).proper
        have := beside.ended earlier member
        have := located.front
        rw [decide_eq_true_eq, located.location]
        omega
    rw [movedValue, found]
  have node : movedNode (done ++ edit :: later) (some ⟨.aConst (some cell), unknownFields⟩) =
      some ⟨.aConst (some { cell with
        location := int32Position spliced (edit.replacement.getD [] ++ other)
        val := replaceValue cell.val (cString (replacementContent (edit.replacement.getD []))) }), unknownFields⟩ := by
    rw [movedNode, moved, value]
  have accepted := held.replaced unknownFields spliced other plain
  rw [← replacement] at accepted
  rw [node]
  refine ⟨?_, other, ?_, next⟩
  · simp only [consumeNode, consumeCell, consumedState_next, located.old, List.head?_cons]
    rw [if_pos start]
    have turn : (consumedState done (edit :: later)).delta = deltaOf done := rfl
    rw [turn, consumed, ← consumedState_consume]
  · exact accepted

/-- The turn of a cell: the edit of its literal is consumed, if there is one. -/
theorem consumeNode_reads {first : List SourceEdit} (unknownFields : Text) (short : sql.length ≤ int32Max)
    (held : CellRead sql rest middle cell gap body string)
    (beside : SpliceAt sql spliced done (first ++ later) rest image)
    (quoted : ∀ edit ∈ done ++ (first ++ later), QuotedEdit sql edit)
    (spans : (first.map interval).Sublist (nodeSpans (some ⟨.aConst (some cell), unknownFields⟩)))
    (behind : ∀ edit ∈ later, place sql middle ≤ edit.sourceStart) :
    consumeNode (consumedState done (first ++ later)) (some ⟨.aConst (some cell), unknownFields⟩) =
      (movedNode (done ++ (first ++ later)) (some ⟨.aConst (some cell), unknownFields⟩),
        consumedState (done ++ first) later) ∧
    ∃ other, certifiedCell spliced (movedNode (done ++ (first ++ later)) (some ⟨.aConst (some cell), unknownFields⟩)) image =
        some (other, string) ∧ SpliceAt sql spliced (done ++ first) later middle other := by
  by_cases none : first = []
  · subst none
    rw [List.append_nil]
    exact consumeNode_unedited unknownFields short held beside quoted behind
  · obtain ⟨_, empty⟩ | ⟨rfl, single⟩ := nodeSpans_cases unknownFields held.value
    · rw [empty, List.sublist_nil, List.map_eq_nil_iff] at spans
      exact absurd spans none
    · rw [single, List.sublist_singleton, List.map_eq_nil_iff] at spans
      obtain ⟨edit, rfl, span⟩ := List.map_eq_singleton_iff.mp (spans.resolve_left none)
      exact consumeNode_edited unknownFields short held beside quoted span

end Cell

/-! ## The update of the rows -/

section Rows

variable {sql spliced : Text} {edits : List SourceEdit}

/-- A mark stands in both texts. -/
theorem mark_beside {done remaining : List SourceEdit} {rest after image : Text} {mark : UInt8}
    (read : certifiedPunctuation mark rest = some after) (plain : mark ≠ 47 ∧ mark ≠ 45)
    (beside : SpliceAt sql spliced done remaining rest image) (quoted : ∀ edit ∈ remaining, QuotedEdit sql edit)
    (behind : ∀ edit ∈ remaining, place sql after ≤ edit.sourceStart) :
    ∃ other, certifiedPunctuation mark image = some other ∧ SpliceAt sql spliced done remaining after other := by
  obtain ⟨gap, rfl, accepts⟩ := certifiedPunctuation_piece read plain.1 plain.2
  obtain ⟨other, rfl, next, _⟩ := beside.advance quoted behind
  exact ⟨other, accepts other, next⟩

/-- The edits that are left start behind the place of the rest. -/
theorem remaining_behind {start stop point : Nat} {spans : List (Nat × Nat)} {here later : List SourceEdit}
    (between : SpansBetween sql start stop spans) (sublist : (here.map interval).Sublist spans) (front : point ≤ start)
    (behind : ∀ edit ∈ later, stop ≤ edit.sourceStart) : ∀ edit ∈ here ++ later, point ≤ edit.sourceStart := by
  intro edit member
  obtain inHere | inLater := List.mem_append.mp member
  · exact front.trans (interval_between between sublist edit inHere).1
  · exact (front.trans between.le).trans (behind edit inLater)

/-- The edits of a row of spans are those of the first spans and those of the other ones. -/
theorem edits_split {here : List SourceEdit} {left right : List (Nat × Nat)}
    (sublist : (here.map interval).Sublist (left ++ right)) :
    ∃ first second, here = first ++ second ∧ (first.map interval).Sublist left ∧ (second.map interval).Sublist right := by
  obtain ⟨leftPart, rightPart, whole, inLeft, inRight⟩ := List.sublist_append_iff.mp sublist
  obtain ⟨first, second, rfl, rfl, rfl⟩ := List.map_eq_append_iff.mp whole
  exact ⟨first, second, rfl, inLeft, inRight⟩

theorem consumeCells_reads {cells : List (Option InsertAst.CellNode)} {done here later : List SourceEdit}
    {rest after image : Text} {strings total : Nat} (short : sql.length ≤ int32Max)
    (read : certifiedCells sql cells (rest, strings) = some (after, total))
    (beside : SpliceAt sql spliced done (here ++ later) rest image) (all : done ++ (here ++ later) = edits)
    (quoted : ∀ edit ∈ edits, QuotedEdit sql edit) (spans : (here.map interval).Sublist (cellSpans cells))
    (behind : ∀ edit ∈ later, place sql after ≤ edit.sourceStart) :
    consumeCells (consumedState done (here ++ later)) cells =
      (cells.map (movedNode edits), consumedState (done ++ here) later) ∧
    ∃ other, certifiedCells spliced (cells.map (movedNode edits)) (image, strings) = some (other, total) ∧
      SpliceAt sql spliced (done ++ here) later after other := by
  induction cells generalizing done here rest image strings with
  | nil =>
    cases read
    rw [cellSpans, List.flatMap_nil, List.sublist_nil, List.map_eq_nil_iff] at spans
    subst spans
    rw [List.append_nil]
    exact ⟨rfl, image, rfl, beside⟩
  | cons node cells inductionHypothesis =>
    simp only [certifiedCells, Option.bind_eq_bind, Option.bind_eq_some_iff, Prod.exists] at read
    obtain ⟨middle, string, cellRead, next, marked, behindRead⟩ := read
    obtain ⟨cell, unknownFields, gap, body, rfl, held⟩ := certifiedCell_piece cellRead
    rw [cellSpans, List.flatMap_cons] at spans
    obtain ⟨first, second, rfl, firstSpans, secondSpans⟩ := edits_split spans
    rw [List.append_assoc] at beside all
    have middleSuffix : middle <:+ sql := by
      have := beside.suffix
      rw [held.split] at this
      exact (List.suffix_append _ _).trans this
    obtain ⟨nextSuffix, nextLe⟩ := mark_place middleSuffix marked (cellMark_plain _).1 (cellMark_plain _).2
    obtain ⟨_, between, _⟩ := cellSpans_read short nextSuffix behindRead
    have laterQuoted : ∀ edit ∈ second ++ later, QuotedEdit sql edit := fun edit member =>
      quoted edit (by rw [← all]; exact List.mem_append_right _ (List.mem_append_right _ member))
    -- the cell, then its mark, then the other cells
    obtain ⟨consumed, middleImage, cellAccepted, cellBeside⟩ := consumeNode_reads unknownFields short held beside
      (by rw [all]; exact quoted) firstSpans (remaining_behind between secondSpans nextLe behind)
    obtain ⟨nextImage, markAccepted, markBeside⟩ := mark_beside marked (cellMark_plain _) cellBeside laterQuoted
      (remaining_behind between secondSpans le_rfl behind)
    obtain ⟨consumedBehind, other, accepted, last⟩ := inductionHypothesis behindRead markBeside
      (by rw [← all, List.append_assoc]) secondSpans
    rw [all] at consumed cellAccepted
    rw [List.append_assoc] at consumedBehind last
    constructor
    · rw [consumeCells, List.append_assoc, consumed]
      simp only []
      rw [consumedBehind]
      simp only [List.map_cons, List.append_assoc]
    · refine ⟨other, ?_, last⟩
      rw [List.map_cons, certifiedCells, cellAccepted]
      simp only [Option.bind_eq_bind, Option.bind_some, List.map_eq_nil_iff]
      rw [markAccepted]
      exact accepted

/-- A row either lists cells, or neither the certificate nor the update sees any. -/
theorem row_cases (row : Option InsertAst.RowNode) :
    (∃ items listUnknown unknownFields, row = some ⟨.list (some ⟨some items, listUnknown⟩), unknownFields⟩) ∨
    (certifiedRowItems row = [] ∧ (∀ edits, movedRow edits row = row) ∧ ∀ state, consumeRow state row = (row, state)) := by
  match row with
  | none => exact .inr ⟨rfl, fun _ => rfl, fun _ => rfl⟩
  | some ⟨.notSet, _⟩ => exact .inr ⟨rfl, fun _ => rfl, fun _ => rfl⟩
  | some ⟨.other _ _, _⟩ => exact .inr ⟨rfl, fun _ => rfl, fun _ => rfl⟩
  | some ⟨.list none, _⟩ => exact .inr ⟨rfl, fun _ => rfl, fun _ => rfl⟩
  | some ⟨.list (some ⟨none, _⟩), _⟩ => exact .inr ⟨rfl, fun _ => rfl, fun _ => rfl⟩
  | some ⟨.list (some ⟨some items, listUnknown⟩), unknownFields⟩ => exact .inl ⟨items, listUnknown, unknownFields, rfl⟩

theorem certifiedRowItems_moved (row : Option InsertAst.RowNode) :
    certifiedRowItems (movedRow edits row) = (certifiedRowItems row).map (movedNode edits) := by
  obtain ⟨items, listUnknown, unknownFields, rfl⟩ | ⟨empty, same, _⟩ := row_cases row
  · rfl
  · rw [same, empty, List.map_nil]

theorem consumeRow_eq {state after : ConsumeState} (row : Option InsertAst.RowNode)
    (consumed : consumeCells state (certifiedRowItems row) = ((certifiedRowItems row).map (movedNode edits), after)) :
    consumeRow state row = (movedRow edits row, after) := by
  obtain ⟨items, listUnknown, unknownFields, rfl⟩ | ⟨empty, same, unread⟩ := row_cases row
  · rw [certifiedRowItems] at consumed
    rw [consumeRow, consumed, movedRow]
  · rw [empty] at consumed
    cases consumed
    rw [unread, same]

theorem consumeRows_reads {rows : List (Option InsertAst.RowNode)} {done here later : List SourceEdit}
    {rest after image : Text} {strings total : Nat} (short : sql.length ≤ int32Max)
    (read : certifiedRowsOf sql rows (rest, strings) = some (after, total))
    (beside : SpliceAt sql spliced done (here ++ later) rest image) (all : done ++ (here ++ later) = edits)
    (quoted : ∀ edit ∈ edits, QuotedEdit sql edit) (spans : (here.map interval).Sublist (rowSpans rows))
    (behind : ∀ edit ∈ later, place sql after ≤ edit.sourceStart) :
    consumeRows (consumedState done (here ++ later)) rows = (rows.map (movedRow edits), consumedState (done ++ here) later) ∧
    ∃ other, certifiedRowsOf spliced (rows.map (movedRow edits)) (image, strings) = some (other, total) ∧
      SpliceAt sql spliced (done ++ here) later after other := by
  induction rows generalizing done here rest image strings with
  | nil =>
    cases read
    rw [rowSpans, List.flatMap_nil, List.sublist_nil, List.map_eq_nil_iff] at spans
    subst spans
    rw [List.append_nil]
    exact ⟨rfl, image, rfl, beside⟩
  | cons row rows inductionHypothesis =>
    simp only [certifiedRowsOf, Option.bind_eq_bind, Option.bind_eq_some_iff, Prod.exists] at read
    obtain ⟨front, opened, middle, count, cellsRead, next, separated, behindRead⟩ := read
    rw [rowSpans, List.flatMap_cons] at spans
    obtain ⟨first, second, rfl, firstSpans, secondSpans⟩ := edits_split spans
    rw [List.append_assoc] at beside all
    obtain ⟨frontSuffix, frontLe⟩ := mark_place beside.suffix opened (by decide) (by decide)
    obtain ⟨middleSuffix, rowBetween, _⟩ := cellSpans_read short frontSuffix cellsRead
    have nextPlace : next <:+ sql ∧ place sql middle ≤ place sql next := by
      rw [certifiedSeparator] at separated
      split at separated
      next =>
        cases separated
        exact ⟨middleSuffix, le_rfl⟩
      next => exact mark_place middleSuffix separated (by decide) (by decide)
    obtain ⟨_, between, _⟩ := rowSpans_read short nextPlace.1 behindRead
    have laterQuoted : ∀ edit ∈ second ++ later, QuotedEdit sql edit := fun edit member =>
      quoted edit (by rw [← all]; exact List.mem_append_right _ (List.mem_append_right _ member))
    have laterBehind := remaining_behind between secondSpans nextPlace.2 behind
    -- the opening mark, the cells, the comma and the other rows
    obtain ⟨frontImage, openAccepted, openBeside⟩ := mark_beside opened (by decide) beside
      (fun edit member => quoted edit (by rw [← all]; exact List.mem_append_right _ member))
      (remaining_behind rowBetween firstSpans le_rfl laterBehind)
    obtain ⟨consumed, middleImage, cellsAccepted, cellsBeside⟩ :=
      consumeCells_reads short cellsRead openBeside all quoted firstSpans laterBehind
    have separatorBeside : ∃ nextImage, certifiedSeparator (rows.map (movedRow edits)) middleImage = some nextImage ∧
        SpliceAt sql spliced (done ++ first) (second ++ later) next nextImage := by
      rw [certifiedSeparator] at separated ⊢
      by_cases last : rows = []
      · rw [if_pos last] at separated
        cases separated
        exact ⟨middleImage, by rw [if_pos (by rw [last]; rfl)], cellsBeside⟩
      · rw [if_neg last] at separated
        rw [if_neg (by rw [List.map_eq_nil_iff]; exact last)]
        exact mark_beside separated (by decide) cellsBeside laterQuoted
          (remaining_behind between secondSpans le_rfl behind)
    obtain ⟨nextImage, commaAccepted, commaBeside⟩ := separatorBeside
    obtain ⟨consumedBehind, other, accepted, last⟩ := inductionHypothesis behindRead commaBeside
      (by rw [← all, List.append_assoc]) secondSpans
    rw [List.append_assoc] at consumedBehind last
    constructor
    · rw [consumeRows, List.append_assoc, consumeRow_eq row consumed]
      simp only []
      rw [consumedBehind]
      rfl
    · refine ⟨other, ?_, last⟩
      rw [List.map_cons, certifiedRowsOf, openAccepted]
      simp only [Option.bind_eq_bind, Option.bind_some, certifiedRowItems_moved, cellsAccepted, commaAccepted]
      exact accepted

end Rows

/-! ## The words and the names -/

section Names

variable {sql spliced : Text} {edits : List SourceEdit}

theorem word_place {word : Option Text} {rest after : Text} (suffix : rest <:+ sql)
    (read : certifiedWord word rest = some after) : after <:+ sql ∧ place sql rest ≤ place sql after := by
  obtain ⟨gap, body, rfl, _⟩ := certifiedWord_piece read
  have := place_append suffix
  exact ⟨(List.suffix_append _ _).trans suffix, by omega⟩

theorem name_place {name : Option Text} {location : Int32} {rest after : Text} (suffix : rest <:+ sql)
    (read : certifiedName sql name location rest = some after) :
    after <:+ sql ∧ place sql rest ≤ place sql after := by
  obtain ⟨gap, body, rfl, _⟩ := certifiedName_piece read
  have := place_append suffix
  exact ⟨(List.suffix_append _ _).trans suffix, by omega⟩

theorem columns_place {columns : List (Option InsertAst.ColumnNode)} {rest after : Text} (suffix : rest <:+ sql)
    (read : certifiedColumns sql columns rest = some after) : after <:+ sql ∧ place sql rest ≤ place sql after := by
  fun_induction certifiedColumns sql columns rest with
  | case1 =>
    cases read
    exact ⟨suffix, le_rfl⟩
  | case2 => cases read
  | case3 rest target unknownFields columns plain inductionHypothesis =>
    simp only [Option.bind_eq_bind, Option.bind_eq_some_iff] at read
    obtain ⟨middle, named, next, marked, behind⟩ := read
    obtain ⟨middleSuffix, first⟩ := name_place suffix named
    obtain ⟨nextSuffix, second⟩ := mark_place middleSuffix marked (cellMark_plain _).1 (cellMark_plain _).2
    obtain ⟨afterSuffix, third⟩ := inductionHypothesis next nextSuffix behind
    exact ⟨afterSuffix, by omega⟩
  | case4 => cases read

theorem word_beside {done remaining : List SourceEdit} {word : Option Text} {rest after image : Text}
    (read : certifiedWord word rest = some after) (beside : SpliceAt sql spliced done remaining rest image)
    (quoted : ∀ edit ∈ remaining, QuotedEdit sql edit) (behind : ∀ edit ∈ remaining, place sql after ≤ edit.sourceStart) :
    ∃ other, certifiedWord word image = some other ∧ SpliceAt sql spliced done remaining after other := by
  obtain ⟨gap, body, rfl, accepts⟩ := certifiedWord_piece read
  obtain ⟨other, rfl, next, same⟩ := beside.advance quoted behind
  exact ⟨other, accepts other same, next⟩

/-- A name in front of all edits stands at the same place in both texts. -/
theorem name_beside {remaining : List SourceEdit} {name : Option Text} {location : Int32} {rest after image : Text}
    (read : certifiedName sql name location rest = some after) (beside : SpliceAt sql spliced [] remaining rest image)
    (quoted : ∀ edit ∈ remaining, QuotedEdit sql edit) (behind : ∀ edit ∈ remaining, place sql after ≤ edit.sourceStart) :
    ∃ other, certifiedName spliced name location image = some other ∧ SpliceAt sql spliced [] remaining after other := by
  obtain ⟨gap, body, rfl, located, accepts⟩ := certifiedName_piece read
  obtain ⟨other, rfl, next, same⟩ := beside.advance quoted behind
  have samePlace : int32Position sql (body ++ after) = int32Position spliced (body ++ other) := by
    have suffix := beside.suffix
    have imageSuffix := beside.imageSuffix
    rw [List.append_assoc] at suffix imageSuffix
    have here := place_append ((List.suffix_append _ _).trans suffix)
    have there := place_append ((List.suffix_append _ _).trans imageSuffix)
    have shifted := next.shifted
    rw [deltaOf, List.map_nil, List.sum_nil] at shifted
    have equal : place sql (body ++ after) = place spliced (body ++ other) := by omega
    rw [place, place] at equal
    rw [int32Position, int32Position, equal]
  have accepted := accepts spliced other same
  rw [← samePlace, ← located] at accepted
  exact ⟨other, accepted, next⟩

theorem columns_beside {remaining : List SourceEdit} {columns : List (Option InsertAst.ColumnNode)} {rest after image : Text}
    (read : certifiedColumns sql columns rest = some after) (beside : SpliceAt sql spliced [] remaining rest image)
    (quoted : ∀ edit ∈ remaining, QuotedEdit sql edit) (behind : ∀ edit ∈ remaining, place sql after ≤ edit.sourceStart) :
    ∃ other, certifiedColumns spliced columns image = some other ∧ SpliceAt sql spliced [] remaining after other := by
  fun_induction certifiedColumns sql columns rest generalizing image with
  | case1 =>
    cases read
    exact ⟨image, rfl, beside⟩
  | case2 => cases read
  | case3 rest target unknownFields columns plain inductionHypothesis =>
    simp only [Option.bind_eq_bind, Option.bind_eq_some_iff] at read
    obtain ⟨middle, named, next, marked, further⟩ := read
    obtain ⟨middleSuffix, first⟩ := name_place beside.suffix named
    obtain ⟨nextSuffix, second⟩ := mark_place middleSuffix marked (cellMark_plain _).1 (cellMark_plain _).2
    obtain ⟨afterSuffix, third⟩ := columns_place nextSuffix further
    have nextBehind : ∀ edit ∈ remaining, place sql next ≤ edit.sourceStart := fun edit member =>
      third.trans (behind edit member)
    obtain ⟨middleImage, nameAccepted, nameBeside⟩ := name_beside named beside quoted fun edit member =>
      second.trans (nextBehind edit member)
    obtain ⟨nextImage, markAccepted, markBeside⟩ := mark_beside marked (cellMark_plain _) nameBeside quoted nextBehind
    obtain ⟨other, accepted, last⟩ := inductionHypothesis next further markBeside
    refine ⟨other, ?_, last⟩
    rw [certifiedColumns, if_neg plain, nameAccepted]
    simp only [Option.bind_eq_bind, Option.bind_some]
    rw [markAccepted]
    exact accepted
  | case4 => cases read

end Names

/-! ## The whole statement -/

section Statement

variable {sql : Text} {edits : List SourceEdit}

/-- Edits in text order that each replace one of the spans replace a part of the spans in their order. -/
theorem intervals_sublist {cursor start stop : Nat} {spans : List (Nat × Nat)}
    (ordered : Ordered cursor (edits.map SourceEdit.spliceEdit)) (quoted : ∀ edit ∈ edits, edit.sourceStart < edit.sourceEnd)
    (between : SpansBetween sql start stop spans) (targets : ∀ edit ∈ edits, interval edit ∈ spans) :
    (edits.map interval).Sublist spans := by
  have editsSorted : (edits.map interval).Pairwise fun left right => left.1 < right.1 := by
    rw [List.pairwise_map]
    apply (ordered_ends ordered).imp_of_mem
    intro left right leftMember _ ends
    have := quoted left leftMember
    simp only [interval]
    omega
  have spansSorted : spans.Pairwise fun left right => left.1 < right.1 := by
    apply between.ordered.imp_of_mem
    intro left right leftMember _ ends
    have := (between.within left leftMember).2.1
    omega
  have antisymmetric : Std.Antisymm fun left right : Nat × Nat => left.1 < right.1 :=
    ⟨fun left right before after => absurd (before.trans after) (lt_irrefl _)⟩
  apply List.sublist_of_subperm_of_pairwise _ editsSorted spansSorted
  apply List.subperm_of_subset
  · exact editsSorted.imp fun before same => by rw [same] at before; exact absurd before (lt_irrefl _)
  · intro span member
    obtain ⟨edit, inEdits, rfl⟩ := List.mem_map.mp member
    exact targets edit inEdits

/-- What the update makes of the length of the statement. -/
def consumedLength (edits : List SourceEdit) (stmtLen : Int32) : Int32 :=
  if stmtLen.toInt > 0 then Int32.ofInt (stmtLen.toInt + deltaOf edits) else stmtLen

theorem tail_beside {spliced rest image : Text} {stmtLen : Int32} (short : sql.length ≤ int32Max)
    (imageShort : spliced.length ≤ int32Max) (beside : SpliceAt sql spliced edits [] rest image)
    (positive : 0 < place sql rest) (proper : ∀ edit ∈ edits, edit.sourceStart < edit.sourceEnd)
    (tail : certifiedTail sql stmtLen rest = true) :
    certifiedTail spliced (consumedLength edits stmtLen) image = true ∧
      0 ≤ (consumedLength edits stmtLen).toInt ∧
      (consumedLength edits stmtLen).toInt =
        stmtLen.toInt + deltaBefore edits (endedEdits edits stmtLen.toInt.toNat) := by
  have same : image = rest := by
    rw [beside.spelled, List.map_nil, splice, drop_place beside.suffix]
  subst same
  rw [certifiedTail] at tail ⊢
  cases left : certifiedGap image with
  | none =>
    rw [left] at tail
    cases tail
  | some here =>
    obtain ⟨gap, rfl⟩ := certifiedGap_suffix left
    have suffix := beside.suffix
    have front := place_append suffix
    have imageFront := place_append beside.imageSuffix
    have shifted := beside.shifted
    simp only [left] at tail ⊢
    split at tail
    next semicolon =>
      rw [Bool.and_eq_true, decide_eq_true_eq, decide_eq_true_eq] at tail
      obtain ⟨located, blank⟩ := tail
      have old : stmtLen.toInt = place sql here := by rw [located, int32Position_toInt short]
      have new : stmtLen.toInt + deltaOf edits = place spliced here := by omega
      have moved : consumedLength edits stmtLen = int32Position spliced here := by
        rw [consumedLength, if_pos (by omega), new, Int32.ofInt_eq_ofNat, int32Position, place]
      have all : endedEdits (edits ++ []) (place sql here) = edits.length :=
        endedEdits_eq (fun edit member => (beside.ended edit member).trans (by omega)) (by simp)
      have whole := deltaBefore_done edits []
      rw [List.append_nil] at all whole
      rw [moved, if_pos semicolon, int32Position_toInt imageShort, ← new, old, Int.toNat_natCast, all, whole]
      refine ⟨?_, by omega, rfl⟩
      rw [blank]
      simp
    next other =>
      rw [Bool.and_eq_true, decide_eq_true_eq, decide_eq_true_eq] at tail
      obtain ⟨rfl, rfl⟩ := tail
      have kept : consumedLength edits 0 = 0 := by
        rw [consumedLength, if_neg (by decide)]
      rw [kept, if_neg other]
      have noneEnded : endedEdits ([] ++ edits) 0 = 0 :=
        endedEdits_eq (by simp) fun edit member => Nat.zero_lt_of_lt (proper edit member)
      refine ⟨by decide, by decide, ?_⟩
      rw [List.nil_append] at noneEnded
      rw [show (0 : Int32).toInt = 0 from rfl, Int.toNat_zero, noneEnded, deltaBefore_zero, add_zero]

theorem walk_beside {parts : SourceParts} {strings : Nat} (short : sql.length ≤ int32Max)
    (imageShort : (splice sql 0 (edits.map SourceEdit.spliceEdit)).length ≤ int32Max)
    (walk : certifiedWalk sql parts = some strings) (given : edits ≠ [])
    (ordered : Ordered 0 (edits.map SourceEdit.spliceEdit)) (targets : ∀ edit ∈ edits, interval edit ∈ rowSpans parts.rows)
    (proper : ∀ edit ∈ edits, edit.sourceStart < edit.sourceEnd)
    (plain : ∀ edit ∈ edits, ∃ content, edit.replacement = some (39 :: content ++ [39]) ∧ PlainContent content) :
    consumeRows ⟨edits, 0, 0⟩ parts.rows = (parts.rows.map (movedRow edits), consumedState edits []) ∧
    certifiedWalk (splice sql 0 (edits.map SourceEdit.spliceEdit))
      { parts with
        rows := parts.rows.map (movedRow edits)
        stmtLen := consumedLength edits parts.stmtLen } = some strings ∧
    0 ≤ (consumedLength edits parts.stmtLen).toInt ∧
    (consumedLength edits parts.stmtLen).toInt =
      parts.stmtLen.toInt + deltaBefore edits (endedEdits edits parts.stmtLen.toInt.toNat) := by
  simp only [certifiedWalk, Option.bind_eq_bind, Option.bind_eq_some_iff, Prod.exists] at walk
  obtain ⟨first, insertRead, second, intoRead, third, relationRead, fourth, opened, fifth, columnsRead, sixth, valuesRead,
    last, count, rowsRead, finished⟩ := walk
  obtain ⟨tail, equal⟩ := Option.ite_none_right_eq_some.mp finished
  cases equal
  have whole : sql <:+ sql := List.suffix_refl sql
  obtain ⟨firstSuffix, firstLe⟩ := word_place whole insertRead
  obtain ⟨secondSuffix, secondLe⟩ := word_place firstSuffix intoRead
  obtain ⟨thirdSuffix, thirdLe⟩ := name_place secondSuffix relationRead
  obtain ⟨fourthSuffix, fourthLe⟩ := mark_place thirdSuffix opened (by decide) (by decide)
  obtain ⟨fifthSuffix, fifthLe⟩ := columns_place fourthSuffix columnsRead
  obtain ⟨sixthSuffix, sixthLe⟩ := word_place fifthSuffix valuesRead
  obtain ⟨lastSuffix, between, _⟩ := rowSpans_read short sixthSuffix rowsRead
  have quoted : ∀ edit ∈ edits, QuotedEdit sql edit := fun edit member =>
    ⟨(between.within _ (targets edit member)).2.2.2, proper edit member, plain edit member⟩
  have behind (point : Nat) (le : point ≤ place sql sixth) : ∀ edit ∈ edits, point ≤ edit.sourceStart := fun edit member =>
    le.trans (between.within _ (targets edit member)).1
  have atStart : place sql sql = 0 := Nat.sub_self _
  have start : SpliceAt sql (splice sql 0 (edits.map SourceEdit.spliceEdit)) [] edits sql
      (splice sql 0 (edits.map SourceEdit.spliceEdit)) := by
    refine ⟨whole, List.suffix_refl _, by rw [atStart], by rw [atStart]; exact ordered, ?_, by simp⟩
    rw [atStart, place, Nat.sub_self]
    rfl
  -- everything in front of the rows stands in both texts
  obtain ⟨_, insertAccepted, beside⟩ := word_beside insertRead start quoted (behind _ (by omega))
  obtain ⟨_, intoAccepted, beside⟩ := word_beside intoRead beside quoted (behind _ (by omega))
  obtain ⟨_, relationAccepted, beside⟩ := name_beside relationRead beside quoted (behind _ (by omega))
  obtain ⟨_, openAccepted, beside⟩ := mark_beside opened (by decide) beside quoted (behind _ (by omega))
  obtain ⟨_, columnsAccepted, beside⟩ := columns_beside columnsRead beside quoted (behind _ (by omega))
  obtain ⟨rowsImage, valuesAccepted, beside⟩ := word_beside valuesRead beside quoted (behind _ le_rfl)
  have sublist := intervals_sublist ordered proper between targets
  have split : SpliceAt sql (splice sql 0 (edits.map SourceEdit.spliceEdit)) [] (edits ++ []) sixth rowsImage := by
    rw [List.append_nil]
    exact beside
  obtain ⟨consumed, image, rowsAccepted, beside⟩ := consumeRows_reads short rowsRead split
    (by rw [List.nil_append, List.append_nil]) quoted sublist (by simp)
  rw [List.nil_append] at consumed beside
  have positive : 0 < place sql last := by
    obtain ⟨edit, member⟩ := List.exists_mem_of_ne_nil edits given
    have := proper edit member
    have := beside.ended edit member
    omega
  obtain ⟨tailAccepted, natural, length⟩ := tail_beside short imageShort beside positive proper tail
  refine ⟨?_, ?_, natural, length⟩
  · rw [List.append_nil] at consumed
    exact consumed
  · simp only [certifiedWalk, insertAccepted, intoAccepted, relationAccepted, openAccepted, columnsAccepted, valuesAccepted,
      rowsAccepted, Option.bind_eq_bind, Option.bind_some, tailAccepted, if_true]

end Statement

end SqlParser.Core
