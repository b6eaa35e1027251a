import SqlParser.Core.SemanticCommentPlaces

/-! # The text with its semantic comments

Restoring inserts each comment once and changes nothing else. It fails only where a place is ambiguous or two
comments would change their order, and it keeps every comment where the deparser kept the tokens.
-/

namespace SqlParser.Core.Semantic

open SqlParser.Library.UniqueMatch
open SqlParser.Library.Splice (Edit Ordered splice splice_length)

/-! ## Insertions -/

/-- A comment inserted at its position, with at most two blanks around it. -/
structure Inserts (comment : PlacedComment) (edit : Edit UInt8) : Prop where
  start : edit.start = comment.position
  stop : edit.stop = comment.position
  replacement : ∃ before behind, edit.replacement = before ++ comment.text ++ behind ∧ before.length + behind.length ≤ 2 ∧
    ∀ byte ∈ before ++ behind, isSpace byte = true

/-- At most two blanks. -/
def IsBreak (lineBreak : Text) : Prop :=
  lineBreak.length ≤ 2 ∧ ∀ byte ∈ lineBreak, isSpace byte = true

theorem lineBreakAt_isBreak (source : Text) (stop : Nat) : IsBreak (lineBreakAt source stop) := by
  have carriageReturn : isSpace Byte.carriageReturn = true := by decide
  have lineFeed : isSpace Byte.lineFeed = true := by decide
  unfold lineBreakAt
  split
  · split
    · simp [IsBreak, carriageReturn, lineFeed]
    · simp [IsBreak, carriageReturn]
  · simp [IsBreak, lineFeed]

theorem spaceBefore_cases (restored : Text) (comment : PlacedComment) :
    spaceBefore restored comment = [] ∨ spaceBefore restored comment = [Byte.space] ∧ comment.hasNext = false := by
  unfold spaceBefore
  split
  next atEnd =>
    rw [Bool.and_eq_true, Bool.and_eq_true, Bool.not_eq_true'] at atEnd
    exact .inr ⟨rfl, atEnd.1.1⟩
  · exact .inl rfl

theorem spaceBehind_isBreak {comment : PlacedComment} (isBreak : IsBreak comment.lineBreak) : IsBreak (spaceBehind comment) := by
  unfold spaceBehind
  have empty : IsBreak [] := by simp [IsBreak]
  split
  · split
    · split
      · exact empty
      · exact isBreak
    · split
      · exact empty
      · simp [IsBreak, isSpace]
  · exact empty

theorem inserts_at {restored : Text} {comment : PlacedComment} (isBreak : IsBreak comment.lineBreak) :
    Inserts comment ⟨comment.position, comment.position,
      spaceBefore restored comment ++ comment.text ++ spaceBehind comment⟩ := by
  refine ⟨rfl, rfl, _, _, rfl, ?_⟩
  obtain ⟨short, blanks⟩ := spaceBehind_isBreak isBreak
  rcases spaceBefore_cases restored comment with none | ⟨isSpace, last⟩
  · rw [none]
    exact ⟨by simpa using short, blanks⟩
  · have nothing : spaceBehind comment = [] := by
      rw [spaceBehind, last]
      rfl
    rw [isSpace, nothing]
    simp [Core.isSpace]

/-- The loop inserts the comments at their positions. -/
theorem writeComments_eq {output : Text} {cursor : Nat} {restored : Text} {placed : List PlacedComment}
    (positions : (cursor :: placed.map PlacedComment.position).IsChain (· ≤ ·)) (breaks : ∀ comment ∈ placed, IsBreak comment.lineBreak) :
    ∃ edits, List.Forall₂ Inserts placed edits ∧ Ordered cursor edits ∧
      writeComments output cursor restored placed = restored ++ splice output cursor edits := by
  induction placed generalizing cursor restored with
  | nil => exact ⟨[], .nil, trivial, rfl⟩
  | cons comment placed inductionHypothesis =>
    obtain ⟨behind, positions⟩ := List.isChain_cons_cons.mp positions
    rw [writeComments, Nat.max_eq_right behind]
    obtain ⟨edits, inserts, ordered, isWritten⟩ :=
      inductionHypothesis positions (fun other listed => breaks other (List.mem_cons_of_mem _ listed))
    rw [isWritten]
    have first := @inserts_at (restored ++ slice output cursor comment.position) comment (breaks comment List.mem_cons_self)
    refine ⟨_ :: edits, .cons first inserts, ⟨behind, le_rfl, ordered⟩, ?_⟩
    rw [splice]
    simp only [slice, List.append_assoc]

theorem inserts_delta {placed : List PlacedComment} {edits : List (Edit UInt8)} (inserts : List.Forall₂ Inserts placed edits) :
    (edits.map Edit.delta).sum ≤ ((placed.map fun comment => comment.text.length + 2).sum : Nat) := by
  induction inserts with
  | nil => exact le_rfl
  | @cons comment edit placed edits inserts _ inductionHypothesis =>
    obtain ⟨before, behind, isReplacement, short, -⟩ := inserts.replacement
    rw [List.map_cons, List.map_cons, List.sum_cons, List.sum_cons, Edit.delta, inserts.start, inserts.stop, isReplacement]
    simp only [List.length_append]
    omega

theorem gapPosition_le {output : List SemanticToken} {length gap position : Nat} {hasPrevious hasNext : Bool}
    (placed : gapPosition output length gap = some (position, hasPrevious, hasNext)) : position ≤ length := by
  unfold gapPosition at placed
  split at placed
  · cases placed
  · dsimp only at placed
    split at placed
    · cases placed
    next within =>
      cases placed
      exact Nat.le_of_not_lt within

theorem Placed.isBreak {qsort : SemanticSort} {alignment : Alignment} {source : Text} {length : Nat} {comment : SourceComment}
    {placed : PlacedComment} (placement : Placed qsort alignment source length comment placed) : IsBreak placed.lineBreak := by
  rw [placement.lineBreak]
  exact lineBreakAt_isBreak source comment.stop

theorem exists_related {α β : Type} {relation : α → β → Prop} {left : List α} {right : List β}
    (related : List.Forall₂ relation left right) {item : β} (member : item ∈ right) : ∃ other ∈ left, relation other item := by
  induction related with
  | nil => cases member
  | cons first _ inductionHypothesis =>
    rcases List.mem_cons.mp member with rfl | later
    · exact ⟨_, List.mem_cons_self, first⟩
    · obtain ⟨other, listed, related⟩ := inductionHypothesis later
      exact ⟨other, List.mem_cons_of_mem _ listed, related⟩

theorem placements_texts {qsort : SemanticSort} {alignment : Alignment} {source : Text} {length : Nat}
    {comments : List SourceComment} {placed : List PlacedComment}
    (placements : List.Forall₂ (Placed qsort alignment source length) comments placed) :
    placed.map PlacedComment.text = comments.map fun comment => slice source comment.start comment.stop := by
  induction placements with
  | nil => rfl
  | cons placement _ inductionHypothesis => rw [List.map_cons, List.map_cons, placement.text, inductionHypothesis]

/-- The comments of the source, each as its text. -/
def commentTexts (source : Text) (scan : List ScanToken) : List Text :=
  (collectComments source 0 scan).map fun comment => slice source comment.start comment.stop

/-- Three comments, of which the last one goes to the end of its line. -/
def hintedSource : Text :=
  ascii "k p /*+1*/ q x /*+2*/ r s --+3\n y z"

/-- Of the source the pair `p q`, the `r` and the `s` are left. -/
def changedOutput : Text :=
  ascii "m p q w u r s v n"

def upperOutput : Text :=
  ascii "K P Q X R S Y Z"

def nameAt (start : Nat) : ScanToken :=
  ⟨start, start + 1, 258, noKeyword⟩

def hintedScan : List ScanToken :=
  [nameAt 0, nameAt 2, ⟨4, 10, cCommentToken, noKeyword⟩, nameAt 11, nameAt 13, ⟨15, 21, cCommentToken, noKeyword⟩, nameAt 22,
    nameAt 24, ⟨26, 30, sqlCommentToken, noKeyword⟩, nameAt 32, nameAt 34]

def changedScan : List ScanToken :=
  [0, 2, 4, 6, 8, 10, 12, 14, 16].map nameAt

def upperScan : List ScanToken :=
  [0, 2, 4, 6, 8, 10, 12, 14].map nameAt

def scanNames (sql : Text) : Option (List ScanToken) :=
  some (if sql = hintedSource then hintedScan else if sql = changedOutput then changedScan else upperScan)

theorem hintedSource_scan : scanNames hintedSource = some hintedScan := by
  decide +kernel

/-- The sorts of the library. -/
def insertionSorts : SemanticSort :=
  ⟨fun tokens => tokens.insertionSort fun left right => (compareTokens left right).isLE = true,
    fun gaps => gaps.insertionSort fun left right => (compareGaps left right).isLE = true⟩

theorem insertionSorts_sorted : insertionSorts.Sorted :=
  ⟨insertionSort_sorts, insertionSort_sorts⟩

def changedRestored : Text :=
  ascii "m p /*+1*/ q w u /*+2*/ r s --+3\nv n"

theorem hints_restored : restoreSemanticComments insertionSorts scanNames hintedSource changedOutput = .ok changedRestored := by
  decide +kernel

/-- Restoring inserts every semantic comment of the source once, verbatim and in order, with at most
two blanks around it, and changes nothing else of the output; the text fits the buffer that is
allocated for it. Without a semantic comment the output stays as it is. -/
theorem semantic_comments_woven {qsort : SemanticSort} {scan : Text → Option (List ScanToken)} {source output restored : Text}
    (done : restoreSemanticComments qsort scan source output = .ok restored) :
    restored = output ∧ (hasSemanticCommentMarker source = false ∨ ∃ sourceScan, scan source = some sourceScan ∧
        commentTexts source sourceScan = []) ∨
      ∃ sourceScan placed edits, scan source = some sourceScan ∧
        placed.map PlacedComment.text = commentTexts source sourceScan ∧ List.Forall₂ Inserts placed edits ∧ Ordered 0 edits ∧
        restored = splice output 0 edits ∧
        restored.length ≤ output.length + (placed.map fun comment => comment.text.length + 2).sum := by
  unfold restoreSemanticComments at done
  split at done
  next unmarked =>
    cases done
    exact .inl ⟨rfl, .inl (by simpa using unmarked)⟩
  split at done
  · cases done
  next sourceScan scanned =>
    dsimp only at done
    split at done
    next empty =>
      cases done
      exact .inl ⟨rfl, .inr ⟨sourceScan, scanned, by rw [commentTexts, empty]; rfl⟩⟩
    split at done
    · cases done
    split at done
    · cases done
    split at done
    · cases done
    split at done
    · cases done
    next sourceTokens _ _ outputScan _ _ _ outputTokens _ =>
      obtain ⟨placed, isPlaced, isWritten⟩ := ok_of_map done
      obtain ⟨placements, -, positions⟩ := placeComments_iff.mp isPlaced
      have breaks : ∀ comment ∈ placed, IsBreak comment.lineBreak := by
        intro comment listed
        obtain ⟨_, _, placement⟩ := exists_related placements listed
        exact placement.isBreak
      obtain ⟨edits, inserts, ordered, isSpliced⟩ := @writeComments_eq output 0 [] placed positions breaks
      rw [isWritten, List.nil_append] at isSpliced
      have within : ∀ edit ∈ edits, edit.stop ≤ output.length := by
        intro edit listed
        obtain ⟨comment, isPlaced, inserts⟩ := exists_related inserts listed
        obtain ⟨_, _, placement⟩ := exists_related placements isPlaced
        rw [inserts.stop]
        exact gapPosition_le placement.position
      have length := splice_length output ordered (Nat.zero_le _) within
      have added := inserts_delta inserts
      refine .inr ⟨sourceScan, placed, edits, scanned, placements_texts placements, inserts, ordered, isSpliced, ?_⟩
      rw [isSpliced]
      omega

/-- The first comment goes between its neighbours, the second before the token behind it, the third behind the one before. -/
theorem semantic_comments_woven_hint :
    ∃ edits : List (Edit UInt8), edits.length = 3 ∧ Ordered 0 edits ∧ changedRestored = splice changedOutput 0 edits := by
  rcases semantic_comments_woven hints_restored with ⟨same, -⟩ | ⟨_, _, edits, scanned, texts, inserts, ordered, isSpliced, _⟩
  · exact absurd same (by decide +kernel)
  · obtain rfl := Option.some.inj (scanned.symm.trans hintedSource_scan)
    have three : (commentTexts hintedSource hintedScan).length = 3 := by decide +kernel
    rw [← three, ← texts, List.length_map, inserts.length_eq]
    exact ⟨edits, rfl, ordered, isSpliced⟩

/-! ## Places in a scanned text -/

/-- The tokens of a text as a scanner returns them, one behind the other. -/
structure Scanned (sql : Text) (scan : List ScanToken) : Prop where
  spans : ∀ token ∈ scan, 0 ≤ token.start ∧ token.start ≤ token.stop ∧ token.stop.toNat ≤ sql.length
  ordered : scan.Pairwise fun left right => left.stop ≤ right.start

/-- Tokens with their spans in order, numbered from some ordinal on. -/
structure Numbered (length ordinal : Nat) (tokens : List SemanticToken) : Prop where
  ordinals : ∀ index token, tokens[index]? = some token → token.ordinal = ordinal + index
  spans : ∀ token ∈ tokens, token.start ≤ token.stop ∧ token.stop ≤ length
  ordered : tokens.Pairwise fun left right => left.stop ≤ right.start

theorem scanTokenSpan_eq {token : ScanToken} {length : Nat}
    (span : 0 ≤ token.start ∧ token.start ≤ token.stop ∧ token.stop.toNat ≤ length) :
    scanTokenSpan token length = some (token.start.toNat, token.stop.toNat) := by
  rw [scanTokenSpan, if_neg]
  omega

/-- The tokens of a scanned text are collected, each with the span of one that is no comment. -/
theorem collectTokens_scanned {sql : Text} {scan : List ScanToken} (scanned : Scanned sql scan) (ordinal : Nat) :
    ∃ tokens, collectTokens sql ordinal scan = some tokens ∧ Numbered sql.length ordinal tokens ∧
      ∀ token ∈ tokens, ∃ other ∈ scan, token.start = other.start.toNat := by
  induction scan generalizing ordinal with
  | nil =>
    refine ⟨[], rfl, ⟨fun index token isToken => ?_, List.forall_mem_nil _, .nil⟩, List.forall_mem_nil _⟩
    cases isToken
  | cons first scan inductionHypothesis =>
    obtain ⟨behind, ordered⟩ := List.pairwise_cons.mp scanned.ordered
    have rest : Scanned sql scan := ⟨fun token listed => scanned.spans token (List.mem_cons_of_mem _ listed), ordered⟩
    rw [collectTokens]
    split
    · obtain ⟨tokens, collected, numbered, origin⟩ := inductionHypothesis rest ordinal
      refine ⟨tokens, collected, numbered, fun token listed => ?_⟩
      obtain ⟨other, isOther, same⟩ := origin token listed
      exact ⟨other, List.mem_cons_of_mem _ isOther, same⟩
    · obtain ⟨tokens, collected, numbered, origin⟩ := inductionHypothesis rest (ordinal + 1)
      have span := scanned.spans first List.mem_cons_self
      rw [scanTokenSpan_eq span, collected]
      refine ⟨_, rfl, ⟨fun index token isToken => ?_, ?_, ?_⟩, ?_⟩
      · cases index with
        | zero =>
          cases isToken
          rfl
        | succ index =>
          rw [numbered.ordinals index token isToken]
          omega
      · refine List.forall_mem_cons.mpr ⟨⟨?_, span.2.2⟩, numbered.spans⟩
        exact Int.toNat_le_toNat span.2.1
      · refine List.pairwise_cons.mpr ⟨fun token listed => ?_, numbered.ordered⟩
        obtain ⟨other, isOther, same⟩ := origin token listed
        rw [same]
        exact Int.toNat_le_toNat (behind other isOther)
      · refine List.forall_mem_cons.mpr ⟨⟨first, List.mem_cons_self, rfl⟩, fun token listed => ?_⟩
        obtain ⟨other, isOther, same⟩ := origin token listed
        exact ⟨other, List.mem_cons_of_mem _ isOther, same⟩

/-- Where a gap stands: in front of its token, or behind the last one. -/
def positionOf (tokens : List SemanticToken) (gap : Nat) : Nat :=
  ((tokens[gap]?).map SemanticToken.start).getD ((tokens.getLast?.map SemanticToken.stop).getD 0)

theorem positionOf_inside {tokens : List SemanticToken} {gap : Nat} (inside : gap < tokens.length) :
    positionOf tokens gap = tokens[gap].start := by
  rw [positionOf, List.getElem?_eq_getElem inside]
  rfl

theorem positionOf_end {tokens : List SemanticToken} {gap : Nat} (nonempty : tokens ≠ []) (atEnd : tokens.length ≤ gap) :
    positionOf tokens gap = (tokens.getLast nonempty).stop := by
  rw [positionOf, List.getElem?_eq_none atEnd, List.getLast?_eq_some_getLast nonempty]
  rfl

theorem positionOf_mono {length ordinal : Nat} {tokens : List SemanticToken} (numbered : Numbered length ordinal tokens)
    {small large : Nat} (order : small ≤ large) : positionOf tokens small ≤ positionOf tokens large := by
  by_cases outside : tokens.length ≤ small
  · rw [positionOf, positionOf, List.getElem?_eq_none outside, List.getElem?_eq_none (outside.trans order)]
  have inside : small < tokens.length := Nat.lt_of_not_le outside
  rcases Nat.eq_or_lt_of_le order with rfl | less
  · exact le_rfl
  have span := (numbered.spans tokens[small] (List.getElem_mem inside)).1
  rw [positionOf_inside inside]
  by_cases largeInside : large < tokens.length
  · rw [positionOf_inside largeInside]
    exact span.trans (List.pairwise_iff_getElem.mp numbered.ordered small large inside largeInside less)
  · have nonempty : tokens ≠ [] := List.ne_nil_of_length_pos (Nat.lt_of_le_of_lt (Nat.zero_le _) inside)
    rw [positionOf_end nonempty (Nat.le_of_not_lt largeInside), List.getLast_eq_getElem]
    rcases Nat.eq_or_lt_of_le (show small ≤ tokens.length - 1 by omega) with same | before
    · simp only [← same]
      exact span
    · have lastInside : tokens.length - 1 < tokens.length := by omega
      have last := (numbered.spans tokens[tokens.length - 1] (List.getElem_mem lastInside)).1
      exact span.trans ((List.pairwise_iff_getElem.mp numbered.ordered small _ inside (by omega) before).trans last)

theorem gapPosition_eq {length ordinal : Nat} {tokens : List SemanticToken} (numbered : Numbered length ordinal tokens) {gap : Nat}
    (within : gap ≤ tokens.length) :
    gapPosition tokens length gap = some (positionOf tokens gap, decide (gap > 0), decide (gap < tokens.length)) := by
  have bound : positionOf tokens gap ≤ length := by
    rcases Nat.lt_or_eq_of_le within with inside | atEnd
    · rw [positionOf_inside inside]
      have span := numbered.spans tokens[gap] (List.getElem_mem inside)
      exact span.1.trans span.2
    · by_cases nonempty : tokens = []
      · rw [nonempty]
        exact Nat.zero_le length
      · rw [positionOf_end nonempty (Nat.le_of_eq atEnd.symm)]
        exact (numbered.spans _ (List.getLast_mem nonempty)).2
  rw [gapPosition, if_neg (Nat.not_lt_of_le within)]
  exact if_neg (Nat.not_lt_of_le bound)

theorem hintedSource_scanned : Scanned hintedSource hintedScan :=
  ⟨by decide +kernel, by decide +kernel⟩

theorem changedOutput_scanned : Scanned changedOutput changedScan :=
  ⟨by decide +kernel, by decide +kernel⟩

theorem upperOutput_scanned : Scanned upperOutput upperScan :=
  ⟨by decide +kernel, by decide +kernel⟩

/-! ## When restoring succeeds -/

theorem commonPrefix_le (source output : List SemanticToken) :
    commonPrefix source output ≤ source.length ∧ commonPrefix source output ≤ output.length := by
  fun_induction commonPrefix source output with
  | case1 source sources output outputs same inductionHypothesis =>
    exact ⟨Nat.succ_le_succ inductionHypothesis.1, Nat.succ_le_succ inductionHypothesis.2⟩
  | case2 => exact ⟨Nat.zero_le _, Nat.zero_le _⟩
  | case3 => exact ⟨Nat.zero_le _, Nat.zero_le _⟩

theorem gapsBetween_inside {tokens : List SemanticToken} {first last : Nat} {found : SemanticGap}
    (member : found ∈ gapsBetween tokens first last) : found.gap < tokens.length := by
  obtain ⟨gap, -, isFound⟩ := List.mem_filterMap.mp member
  split at isFound
  next previous next isPrevious isNext =>
    cases isFound
    exact (List.getElem?_eq_some_iff.mp isNext).1
  · cases isFound

theorem middle_ordinal {length : Nat} {source output : List SemanticToken} (numbered : Numbered length 0 output)
    {token : SemanticToken} (member : token ∈ (align source output).middle) : token.ordinal < output.length := by
  have listed : token ∈ output := List.mem_of_mem_take (List.mem_of_mem_drop member)
  obtain ⟨index, inside, isToken⟩ := List.getElem_of_mem listed
  rw [numbered.ordinals index token (List.getElem?_eq_some_iff.mpr ⟨inside, isToken⟩), Nat.zero_add]
  exact inside

/-- A gap that is singled out is a gap of the output. -/
theorem Settles.le {length : Nat} {source output : List SemanticToken} (numbered : Numbered length 0 output) {gap found : Nat}
    (settles : Settles (align source output) gap found) : found ≤ output.length := by
  cases settles with
  | front inFront => exact inFront.trans (commonPrefix_le source output).2
  | back => exact Nat.sub_le _ _
  | @between _ _ found _ _ _ _ single =>
    have member : found ∈ (align source output).gaps := List.mem_of_mem_filter (single ▸ List.mem_singleton_self found)
    unfold Alignment.gaps at member
    split at member
    · exact Nat.le_of_lt (gapsBetween_inside member)
    · cases member
  | @before _ _ token _ _ _ _ _ single =>
    exact Nat.le_of_lt (middle_ordinal numbered (List.mem_of_mem_filter (single ▸ List.mem_singleton_self token)))
  | @behind _ _ token _ _ _ _ _ _ single =>
    exact middle_ordinal numbered (List.mem_of_mem_filter (single ▸ List.mem_singleton_self token))

/-- A comment of the source at a gap of the output. -/
def placedAt (output : List SemanticToken) (source : Text) (comment : SourceComment) (gap : Nat) : PlacedComment :=
  ⟨slice source comment.start comment.stop, lineBreakAt source comment.stop, gap, positionOf output gap, gap > 0,
    gap < output.length⟩

theorem placed_iff {qsort : SemanticSort} {alignment : Alignment} {source : Text} {length : Nat}
    (numbered : Numbered length 0 alignment.output) {comment : SourceComment} {gap : Nat} (within : gap ≤ alignment.output.length)
    (isGap : outputGap qsort alignment comment.gap = some gap) (placed : PlacedComment) :
    Placed qsort alignment source length comment placed ↔ placed = placedAt alignment.output source comment gap := by
  constructor
  · intro placement
    have same := placement.gap
    rw [isGap] at same
    have position := placement.position
    rw [← Option.some.inj same, gapPosition_eq numbered within, Option.some_inj, Prod.mk_inj, Prod.mk_inj] at position
    obtain ⟨text, lineBreak, placedGap, place, hasPrevious, hasNext⟩ := placed
    have isText := placement.text
    have isLineBreak := placement.lineBreak
    simp only [Option.some_inj] at same
    simp only at position isText isLineBreak
    rw [placedAt, isText, isLineBreak, ← position.1, ← position.2.1, ← position.2.2, same]
  · rintro rfl
    exact ⟨isGap, gapPosition_eq numbered within, rfl, rfl⟩

section settled

variable {qsort : SemanticSort} {source : Text} {sourceTokens output : List SemanticToken} {length : Nat}

/-- The comments that were placed stand at gaps that are singled out. -/
theorem settled_of_placed (sorted : qsort.Sorted) (numbered : Numbered length 0 output) {comments : List SourceComment}
    {placed : List PlacedComment}
    (placements : List.Forall₂ (Placed qsort (align sourceTokens output) source length) comments placed) :
    List.Forall₂ (fun comment gap => Settles (align sourceTokens output) comment.gap gap) comments (placed.map PlacedComment.gap) ∧
      placed = List.zipWith (placedAt output source) comments (placed.map PlacedComment.gap) := by
  induction placements with
  | nil => exact ⟨.nil, rfl⟩
  | @cons comment first comments placed placement _ inductionHypothesis =>
    have settles := (outputGap_iff sorted _ _ _).mp placement.gap
    have isPlaced : first = placedAt output source comment first.gap :=
      (placed_iff numbered (settles.le numbered) placement.gap first).mp placement
    refine ⟨.cons settles inductionHypothesis.1, ?_⟩
    rw [List.map_cons, List.zipWith_cons_cons, ← inductionHypothesis.2]
    exact congrArg (· :: placed) isPlaced

/-- Comments at gaps that are singled out are placed there. -/
theorem placed_of_settled (sorted : qsort.Sorted) (numbered : Numbered length 0 output) {comments : List SourceComment}
    {gaps : List Nat}
    (settled : List.Forall₂ (fun comment gap => Settles (align sourceTokens output) comment.gap gap) comments gaps) :
    List.Forall₂ (Placed qsort (align sourceTokens output) source length) comments
        (List.zipWith (placedAt output source) comments gaps) ∧
      (List.zipWith (placedAt output source) comments gaps).map PlacedComment.gap = gaps ∧
      (List.zipWith (placedAt output source) comments gaps).map PlacedComment.position = gaps.map (positionOf output) := by
  induction settled with
  | nil => exact ⟨.nil, rfl, rfl⟩
  | @cons comment gap comments gaps settles _ inductionHypothesis =>
    obtain ⟨placements, sameGaps, positions⟩ := inductionHypothesis
    have isGap := (outputGap_iff sorted _ _ _).mpr settles
    have placement := (placed_iff numbered (settles.le numbered) isGap (placedAt output source comment gap)).mpr rfl
    rw [List.zipWith_cons_cons, List.map_cons, List.map_cons, List.map_cons, sameGaps, positions]
    exact ⟨.cons placement placements, rfl, rfl⟩

theorem chain_zero {items : List Nat} (chain : items.IsChain (· ≤ ·)) : (0 :: items).IsChain (· ≤ ·) :=
  List.isChain_cons.mpr ⟨fun item _ => Nat.zero_le item, chain⟩

/-- The comments are placed exactly where their gaps are singled out in an order that does not decrease. -/
theorem placeComments_settled (sorted : qsort.Sorted) (numbered : Numbered length 0 output) {comments : List SourceComment}
    {placed : List PlacedComment} :
    placeComments qsort (align sourceTokens output) source length 0 0 comments = .ok placed ↔
      ∃ gaps, List.Forall₂ (fun comment gap => Settles (align sourceTokens output) comment.gap gap) comments gaps ∧
        gaps.IsChain (· ≤ ·) ∧ placed = List.zipWith (placedAt output source) comments gaps := by
  rw [placeComments_iff]
  constructor
  · rintro ⟨placements, gaps, -⟩
    obtain ⟨settled, isPlaced⟩ := settled_of_placed sorted numbered placements
    exact ⟨_, settled, (List.isChain_cons.mp gaps).2, isPlaced⟩
  · rintro ⟨gaps, settled, chain, rfl⟩
    obtain ⟨placements, sameGaps, positions⟩ := @placed_of_settled qsort source sourceTokens output length sorted numbered comments gaps settled
    rw [sameGaps, positions]
    refine ⟨placements, chain_zero chain, chain_zero ?_⟩
    rw [List.isChain_map]
    exact chain.imp fun _ _ order => positionOf_mono numbered order

end settled

/-- Where both texts are scanned and the output has no semantic comment, restoring places the comments and writes them. -/
theorem restoreSemanticComments_eq {qsort : SemanticSort} {scan : Text → Option (List ScanToken)} {source output : Text}
    {sourceScan outputScan : List ScanToken} {sourceTokens outputTokens : List SemanticToken}
    (marked : hasSemanticCommentMarker source = true) (scannedSource : scan source = some sourceScan)
    (scannedOutput : scan output = some outputScan) (plain : ∀ token ∈ outputScan, semanticComment output token = none)
    (collectedSource : collectTokens source 0 sourceScan = some sourceTokens)
    (collectedOutput : collectTokens output 0 outputScan = some outputTokens) :
    restoreSemanticComments qsort scan source output =
      (placeComments qsort (align sourceTokens outputTokens) source output.length 0 0 (collectComments source 0 sourceScan)).map
        (writeComments output 0 []) := by
  have noComment : (outputScan.any fun token => (semanticComment output token).isSome) = false := by
    rw [List.any_eq_false]
    intro token listed
    rw [plain token listed]
    exact Bool.false_ne_true
  unfold restoreSemanticComments
  rw [marked, scannedSource, Bool.not_true, if_neg Bool.false_ne_true]
  dsimp only
  by_cases empty : collectComments source 0 sourceScan = []
  · rw [if_pos empty, empty]
    rfl
  · rw [if_neg empty, collectedSource, scannedOutput]
    dsimp only
    rw [noComment, if_neg Bool.false_ne_true, collectedOutput]

/-- For any text that the deparser gives, whatever order the sorts leave equal tokens in: comments are restored
exactly where each has a gap that is singled out and their order is kept, and each goes to that gap. -/
theorem semantic_comments_settled {qsort : SemanticSort} (sorted : qsort.Sorted) {scan : Text → Option (List ScanToken)}
    {source output : Text} {sourceScan outputScan : List ScanToken} (marked : hasSemanticCommentMarker source = true)
    (scannedSource : scan source = some sourceScan) (scannedOutput : scan output = some outputScan)
    (inSource : Scanned source sourceScan) (inOutput : Scanned output outputScan)
    (plain : ∀ token ∈ outputScan, semanticComment output token = none) :
    ∃ sourceTokens outputTokens, collectTokens source 0 sourceScan = some sourceTokens ∧
      collectTokens output 0 outputScan = some outputTokens ∧
      ∀ restored, restoreSemanticComments qsort scan source output = .ok restored ↔
        ∃ gaps, List.Forall₂ (fun comment gap => Settles (align sourceTokens outputTokens) comment.gap gap)
            (collectComments source 0 sourceScan) gaps ∧
          gaps.IsChain (· ≤ ·) ∧
          restored = writeComments output 0 []
            (List.zipWith (placedAt outputTokens source) (collectComments source 0 sourceScan) gaps) := by
  obtain ⟨sourceTokens, collectedSource, -, -⟩ := collectTokens_scanned inSource 0
  obtain ⟨outputTokens, collectedOutput, numbered, -⟩ := collectTokens_scanned inOutput 0
  refine ⟨sourceTokens, outputTokens, collectedSource, collectedOutput, fun restored => ?_⟩
  have isPlaced := @placeComments_settled qsort source sourceTokens outputTokens output.length sorted numbered
    (collectComments source 0 sourceScan)
  rw [restoreSemanticComments_eq marked scannedSource scannedOutput plain collectedSource collectedOutput]
  constructor
  · intro done
    obtain ⟨placed, place, rfl⟩ := ok_of_map done
    obtain ⟨gaps, settled, chain, rfl⟩ := isPlaced.mp place
    exact ⟨gaps, settled, chain, rfl⟩
  · rintro ⟨gaps, settled, chain, rfl⟩
    rw [isPlaced.mpr ⟨gaps, settled, chain, rfl⟩]
    rfl

/-- The tokens of a text that are names of one letter at some places. -/
def namesAt (sql : Text) (starts : List Nat) : List SemanticToken :=
  starts.zipIdx.map fun (start, ordinal) => ⟨258, noKeyword, slice sql start (start + 1), start, start + 1, ordinal⟩

def hintedComments : List SourceComment :=
  [⟨4, 10, 2⟩, ⟨15, 21, 4⟩, ⟨26, 30, 6⟩]

/-- Each of the three comments has its place. -/
theorem semantic_comments_settled_hint :
    ∃ gaps, List.Forall₂ (fun comment gap => Settles (align (namesAt hintedSource [0, 2, 11, 13, 22, 24, 32, 34])
          (namesAt changedOutput [0, 2, 4, 6, 8, 10, 12, 14, 16])) comment.gap gap)
        hintedComments gaps ∧
      changedRestored = writeComments changedOutput 0 []
        (List.zipWith (placedAt (namesAt changedOutput [0, 2, 4, 6, 8, 10, 12, 14, 16]) hintedSource)
          hintedComments gaps) := by
  obtain ⟨_, _, isSource, isOutput, settled⟩ :=
    @semantic_comments_settled insertionSorts insertionSorts_sorted scanNames hintedSource changedOutput hintedScan changedScan
      (by decide +kernel) hintedSource_scan (by decide +kernel) hintedSource_scanned changedOutput_scanned (by decide +kernel)
  have collectedSource : collectTokens hintedSource 0 hintedScan =
      some (namesAt hintedSource [0, 2, 11, 13, 22, 24, 32, 34]) := by decide +kernel
  have collectedOutput : collectTokens changedOutput 0 changedScan =
      some (namesAt changedOutput [0, 2, 4, 6, 8, 10, 12, 14, 16]) := by decide +kernel
  have comments : collectComments hintedSource 0 hintedScan = hintedComments := by decide +kernel
  obtain rfl := Option.some.inj (isSource.symm.trans collectedSource)
  obtain rfl := Option.some.inj (isOutput.symm.trans collectedOutput)
  obtain ⟨gaps, places, -, isRestored⟩ := (settled _).mp hints_restored
  rw [comments] at places isRestored
  exact ⟨gaps, places, isRestored⟩

/-! ## Tokens that are kept -/

theorem commonPrefix_same {source output : List SemanticToken}
    (same : List.Forall₂ (fun left right => compareTokens left right = .eq) source output) :
    commonPrefix source output = source.length := by
  induction same with
  | nil => rfl
  | cons first _ inductionHypothesis => rw [commonPrefix, if_pos first, inductionHypothesis, List.length_cons]

/-- The gaps of the comments stand in order, and none is behind the last token. -/
theorem collectComments_gaps {sql : Text} {ordinal gap : Nat} {scan : List ScanToken} {tokens : List SemanticToken}
    (collected : collectTokens sql ordinal scan = some tokens) :
    (∀ comment ∈ collectComments sql gap scan, gap ≤ comment.gap ∧ comment.gap ≤ gap + tokens.length) ∧
      (collectComments sql gap scan).Pairwise fun earlier later => earlier.gap ≤ later.gap := by
  induction scan generalizing ordinal gap tokens with
  | nil => exact ⟨List.forall_mem_nil _, .nil⟩
  | cons token scan inductionHypothesis =>
    rw [collectTokens] at collected
    rw [collectComments]
    split at collected
    next isComment =>
      obtain ⟨bounds, ordered⟩ := inductionHypothesis collected
      rw [if_pos isComment]
      cases semanticComment sql token with
      | none => exact ⟨bounds, ordered⟩
      | some span =>
        refine ⟨List.forall_mem_cons.mpr ⟨⟨le_rfl, Nat.le_add_right _ _⟩, bounds⟩, List.pairwise_cons.mpr ⟨?_, ordered⟩⟩
        exact fun later listed => (bounds later listed).1
    next notComment =>
      have none : semanticComment sql token = none := if_neg notComment
      rw [none, if_neg notComment]
      split at collected
      next start stop rest span isRest =>
        cases collected
        obtain ⟨bounds, ordered⟩ := inductionHypothesis isRest
        refine ⟨fun comment listed => ?_, ordered⟩
        obtain ⟨lower, upper⟩ := bounds comment listed
        rw [List.length_cons]
        exact ⟨by omega, by omega⟩
      · cases collected

/-- Where the tokens of the output compare equal to those of the source, restoring succeeds and
leaves every comment between the tokens between which it stood. -/
theorem semantic_comments_kept {qsort : SemanticSort} {scan : Text → Option (List ScanToken)} {source output : Text}
    {sourceScan outputScan : List ScanToken} {sourceTokens outputTokens : List SemanticToken}
    (marked : hasSemanticCommentMarker source = true) (scannedSource : scan source = some sourceScan)
    (scannedOutput : scan output = some outputScan) (inOutput : Scanned output outputScan)
    (plain : ∀ token ∈ outputScan, semanticComment output token = none)
    (collectedSource : collectTokens source 0 sourceScan = some sourceTokens)
    (collectedOutput : collectTokens output 0 outputScan = some outputTokens)
    (same : List.Forall₂ (fun left right => compareTokens left right = .eq) sourceTokens outputTokens) :
    restoreSemanticComments qsort scan source output =
      .ok (writeComments output 0 []
        ((collectComments source 0 sourceScan).map fun comment => placedAt outputTokens source comment comment.gap)) := by
  obtain ⟨tokens, collected, numbered, -⟩ := collectTokens_scanned inOutput 0
  rw [collectedOutput] at collected
  obtain rfl := Option.some.inj collected
  obtain ⟨bounds, ordered⟩ := @collectComments_gaps source 0 0 sourceScan sourceTokens collectedSource
  rw [restoreSemanticComments_eq marked scannedSource scannedOutput plain collectedSource collectedOutput]
  refine congrArg (Except.map (writeComments output 0 [])) (placeComments_iff.mpr ⟨?_, ?_, ?_⟩)
  · rw [List.forall₂_map_right_iff, List.forall₂_same]
    intro comment listed
    have within := (bounds comment listed).2
    rw [Nat.zero_add] at within
    have isGap : outputGap qsort (align sourceTokens outputTokens) comment.gap = some comment.gap := by
      refine if_pos ?_
      rw [align, commonPrefix_same same]
      exact within
    exact (placed_iff numbered (same.length_eq ▸ within) isGap _).mpr rfl
  · refine chain_zero (List.Pairwise.isChain ?_)
    rw [List.map_map, List.pairwise_map]
    exact ordered
  · refine chain_zero (List.Pairwise.isChain ?_)
    rw [List.map_map, List.pairwise_map]
    exact ordered.imp fun order => positionOf_mono numbered order

/-- The comments stay between their tokens, of which the case is another one. -/
theorem semantic_comments_kept_hint :
    restoreSemanticComments insertionSorts scanNames hintedSource upperOutput =
      .ok (ascii "K P /*+1*/ Q X /*+2*/ R S --+3\nY Z") := by
  have kept := @semantic_comments_kept insertionSorts scanNames hintedSource upperOutput hintedScan upperScan
    (namesAt hintedSource [0, 2, 11, 13, 22, 24, 32, 34]) (namesAt upperOutput [0, 2, 4, 6, 8, 10, 12, 14])
    (by decide +kernel) hintedSource_scan (by decide +kernel) upperOutput_scanned (by decide +kernel) (by decide +kernel)
    (by decide +kernel) (by decide +kernel)
  rw [kept]
  decide +kernel

end SqlParser.Core.Semantic
