import SqlParser.Core.IdentifierOrigin

/-! # The run lists of identifier origin maps

Every operation of the origin writer pushes a known list of runs onto the list
it has, and a lookup answers exactly what the run that holds the range says.
-/

namespace SqlParser.Core

open SqlParser.Library.RunMap

/-- What a run that is only known whole says. -/
abbrev WholeOrigin := OriginRunKind × Nat × Nat

def OriginRun.toRun (run : OriginRun) : Run WholeOrigin where
  start := run.outputOffset
  length := run.outputLength
  image :=
    if run.kind = .sourceLinear then .linear run.sourceOffset
    else .atomic (run.kind, run.sourceOffset, run.sourceLength)

def toRuns (runs : List OriginRun) : List (Run WholeOrigin) :=
  runs.map OriginRun.toRun

@[simp] theorem toRun_start (run : OriginRun) : run.toRun.start = run.outputOffset := rfl

@[simp] theorem toRun_length (run : OriginRun) : run.toRun.length = run.outputLength := rfl

@[simp] theorem toRun_stop (run : OriginRun) : run.toRun.stop = run.outputOffset + run.outputLength := rfl

theorem toRun_linear {run : OriginRun} (linear : run.kind = .sourceLinear) :
    run.toRun.image = .linear run.sourceOffset := if_pos linear

theorem toRun_atomic {run : OriginRun} (atomic : run.kind ≠ .sourceLinear) :
    run.toRun.image = .atomic (run.kind, run.sourceOffset, run.sourceLength) := if_neg atomic

theorem kind_of_image_linear {run : OriginRun} {source : Nat}
    (image : run.toRun.image = .linear source) :
    run.kind = .sourceLinear ∧ run.sourceOffset = source := by
  by_cases linear : run.kind = .sourceLinear
  · rw [toRun_linear linear] at image
    exact ⟨linear, Image.linear.inj image⟩
  · rw [toRun_atomic linear] at image
    cases image

theorem kind_of_image_atomic {run : OriginRun} {payload : WholeOrigin}
    (image : run.toRun.image = .atomic payload) :
    run.kind ≠ .sourceLinear ∧ payload = (run.kind, run.sourceOffset, run.sourceLength) := by
  by_cases linear : run.kind = .sourceLinear
  · rw [toRun_linear linear] at image
    cases image
  · rw [toRun_atomic linear] at image
    exact ⟨linear, (Image.atomic.inj image).symm⟩

/-- A run whose ends are sizes and whose source range lies in a source of `limit` bytes. -/
structure OriginRun.Valid (limit : Nat) (run : OriginRun) : Prop where
  linear : run.kind = .sourceLinear → run.sourceLength = run.outputLength
  source : run.sourceOffset + run.sourceLength ≤ limit
  output : run.outputOffset + run.outputLength ≤ sizeMax

theorem originSizeAdd_eq {left right : Nat} (small : left + right ≤ sizeMax) :
    originSizeAdd left right = some (left + right) := if_neg (by omega)

theorem originSizeAdd_some {left right sum : Nat} (added : originSizeAdd left right = some sum) :
    sum = left + right ∧ (left ≤ sizeMax → left + right ≤ sizeMax) := by
  unfold originSizeAdd at added
  split at added
  next overflow => cases added
  next small =>
    cases added
    exact ⟨rfl, fun addressable => by omega⟩

/-! ## Storing one run -/

theorem runCanMerge_eq {limit : Nat} (addressable : limit ≤ sizeMax) {left right : OriginRun}
    (leftValid : left.Valid limit) : runCanMerge left right = left.toRun.mergeable right.toRun := by
  unfold runCanMerge
  have source := leftValid.source
  rw [originSizeAdd_eq leftValid.output, originSizeAdd_eq (source.trans addressable)]
  unfold Run.mergeable
  by_cases leftLinear : left.kind = .sourceLinear
  · by_cases rightLinear : right.kind = .sourceLinear
    · rw [if_neg (by simp [leftLinear, rightLinear]), toRun_linear leftLinear, toRun_linear rightLinear]
      simp only [toRun_stop, toRun_start, toRun_length, leftValid.linear leftLinear]
      by_cases touching : left.outputOffset + left.outputLength = right.outputOffset
      · simp [touching]
      · simp [touching]
    · rw [if_pos (.inr rightLinear), toRun_atomic rightLinear, toRun_linear leftLinear]
  · rw [if_pos (.inl leftLinear), toRun_atomic leftLinear]

theorem mergeRun_ok {limit : Nat} {previous run merged : OriginRun} (previousValid : previous.Valid limit)
    (runValid : run.Valid limit) (merge : previous.toRun.mergeable run.toRun = true)
    (done : mergeRun previous run = .ok merged) :
    merged.toRun = { previous.toRun with length := previous.toRun.length + run.toRun.length } ∧
      merged.Valid limit := by
  obtain ⟨source, previousImage, runImage, touching⟩ := Run.mergeable_iff.mp merge
  obtain ⟨previousLinear, rfl⟩ := kind_of_image_linear previousImage
  obtain ⟨runLinear, continued⟩ := kind_of_image_linear runImage
  have previousLength := previousValid.linear previousLinear
  have runLength := runValid.linear runLinear
  have runSource := runValid.source
  have runOutput := runValid.output
  simp only [toRun_stop, toRun_start, toRun_length] at touching continued
  unfold mergeRun at done
  split at done
  next overflow => cases done
  next mergedOutputLength outputAdded =>
    rw [if_pos previousLinear] at done
    split at done
    next overflow => cases done
    next mergedSourceLength sourceAdded =>
      cases done
      obtain ⟨rfl, -⟩ := originSizeAdd_some outputAdded
      obtain ⟨rfl, -⟩ := originSizeAdd_some sourceAdded
      refine ⟨?_, ?_, ?_, ?_⟩
      · simp [OriginRun.toRun, previousLinear]
      · simp only [previousLength, runLength, implies_true]
      · simp only
        omega
      · simp only
        omega

/-- The runs that storing one run pushes. -/
def storedRuns (run : OriginRun) : List (Run WholeOrigin) :=
  if run.outputLength = 0 then [] else [run.toRun]

theorem storeRun_ok {realloc : Realloc} {writer after : OriginWriter} {run : OriginRun}
    (done : writer.storeRun realloc run = .ok after) :
    after.map = writer.map ∧ after.outputLength = writer.outputLength ∧
      after.runs = writer.runs ++ [run] := by
  unfold OriginWriter.storeRun at done
  split at done
  next error => cases done
  next capacity =>
    cases done
    exact ⟨rfl, rfl, rfl⟩

/-- An operation on the writer that pushes these runs, with the end of the output left alone. -/
structure Pushes (limit : Nat) (before after : OriginWriter) (items : List (Run WholeOrigin)) :
    Prop where
  map : after.map = before.map
  outputLength : after.outputLength = before.outputLength
  runs : toRuns after.runs = pushAll (toRuns before.runs) items
  valid : ∀ run ∈ after.runs, run.Valid limit

theorem Pushes.refl {limit : Nat} {writer : OriginWriter} (valid : ∀ run ∈ writer.runs, run.Valid limit) :
    Pushes limit writer writer [] := ⟨rfl, rfl, rfl, valid⟩

theorem Pushes.trans {limit : Nat} {before middle after : OriginWriter} {first second : List (Run WholeOrigin)}
    (one : Pushes limit before middle first) (two : Pushes limit middle after second) :
    Pushes limit before after (first ++ second) where
  map := two.map.trans one.map
  outputLength := two.outputLength.trans one.outputLength
  runs := by rw [two.runs, one.runs, pushAll, pushAll, pushAll, List.foldl_append]
  valid := two.valid

theorem appendRun_ok {limit : Nat} (addressable : limit ≤ sizeMax) {realloc : Realloc}
    {writer after : OriginWriter} {run : OriginRun} (valid : ∀ run ∈ writer.runs, run.Valid limit)
    (runValid : run.Valid limit) (done : writer.appendRun realloc run = .ok after) :
    Pushes limit writer after (storedRuns run) := by
  have store : ∀ {stored : OriginWriter}, writer.storeRun realloc run = .ok stored →
      push (toRuns writer.runs) run.toRun = toRuns writer.runs ++ [run.toRun] →
        Pushes limit writer stored [run.toRun] := by
    intro stored storing pushed
    obtain ⟨map, outputLength, runs⟩ := storeRun_ok storing
    refine ⟨map, outputLength, ?_, ?_⟩
    · rw [runs, pushAll, List.foldl_cons, List.foldl_nil, pushed, toRuns, List.map_append]
      rfl
    · simpa [runs, or_imp, forall_and] using ⟨valid, runValid⟩
  unfold OriginWriter.appendRun at done
  unfold storedRuns
  split at done
  next empty =>
    cases done
    rw [if_pos empty]
    exact Pushes.refl valid
  next nonempty =>
    rw [if_neg nonempty]
    split at done
    next last =>
      refine store done ?_
      rw [List.getLast?_eq_none_iff.mp last]
      rfl
    next previous last =>
      obtain ⟨front, runs⟩ := List.getLast?_eq_some_iff.mp last
      have previousValid := valid previous (by simp [runs])
      have mapped : toRuns writer.runs = toRuns front ++ [previous.toRun] := by
        rw [runs, toRuns, List.map_append]
        rfl
      rw [runCanMerge_eq addressable previousValid] at done
      split at done
      next merge =>
        split at done
        next error => cases done
        next merged merging =>
          cases done
          obtain ⟨mergedRun, mergedValid⟩ := mergeRun_ok previousValid runValid merge merging
          refine ⟨rfl, rfl, ?_, ?_⟩
          · rw [mapped, pushAll, List.foldl_cons, List.foldl_nil, push, List.getLast?_concat]
            simp only [if_pos merge, List.dropLast_concat]
            simp [runs, toRuns, mergedRun]
          · have frontValid : ∀ run ∈ front, run.Valid limit := fun run member =>
              valid run (by simp [runs, member])
            simpa [runs, or_imp, forall_and] using ⟨frontValid, mergedValid⟩
      next apart =>
        refine store done ?_
        rw [mapped, push, List.getLast?_concat]
        exact if_neg apart

/-! ## The binary search -/

theorem firstRunFrom_spec {runs : List OriginRun} {offset left right : Nat}
    (monotone : runs.Pairwise (fun one two => runEndsBy offset two → runEndsBy offset one))
    (ordered : left ≤ right) (inside : right ≤ runs.length)
    (before : ∀ run ∈ runs.take left, runEndsBy offset run = true)
    (behind : ∀ run ∈ runs.drop right, runEndsBy offset run = false) :
    (∀ run ∈ runs.take (firstRunFrom runs offset left right), runEndsBy offset run = true) ∧
      ∀ run ∈ runs.drop (firstRunFrom runs offset left right), runEndsBy offset run = false := by
  fun_induction firstRunFrom runs offset left right with
  | case1 left right less middle ends inductionHypothesis =>
    have bound : middle < runs.length := by omega
    refine inductionHypothesis (by omega) inside ?_ behind
    rw [List.getElem?_eq_getElem bound, Option.all_some] at ends
    rw [← List.take_append_getElem bound]
    intro run member
    rw [List.mem_append, List.mem_singleton] at member
    obtain earlier | rfl := member
    · rw [← List.take_append_drop middle runs, List.pairwise_append] at monotone
      refine monotone.2.2 run earlier runs[middle] ?_ ends
      rw [List.drop_eq_getElem_cons bound]
      exact List.mem_cons_self
    · exact ends
  | case2 left right less middle continues inductionHypothesis =>
    have bound : middle < runs.length := by omega
    refine inductionHypothesis (by omega) (by omega) before ?_
    rw [List.getElem?_eq_getElem bound, Option.all_some, Bool.not_eq_true] at continues
    rw [List.drop_eq_getElem_cons bound]
    intro run member
    rw [← List.take_append_drop middle runs, List.pairwise_append, List.drop_eq_getElem_cons bound,
      List.pairwise_cons] at monotone
    cases member with
    | head => exact continues
    | tail _ later =>
      by_contra ends
      have := monotone.2.1.1 run later (by simpa using ends)
      rw [continues] at this
      cases this
  | case3 left right done =>
    obtain rfl : left = right := by omega
    exact ⟨before, behind⟩

theorem runEndsBy_iff {limit offset : Nat} {run : OriginRun} (valid : run.Valid limit) :
    runEndsBy offset run = true ↔ run.toRun.stop ≤ offset := by
  unfold runEndsBy
  rw [originSizeAdd_eq valid.output]
  simp

/-- The invariant of a stored run list over an output of `outputLength` bytes. -/
structure RunsSound (limit outputLength : Nat) (runs : List OriginRun) : Prop where
  wellFormed : WellFormed outputLength (toRuns runs)
  separated : Separated (toRuns runs)
  valid : ∀ run ∈ runs, run.Valid limit
  addressable : outputLength ≤ sizeMax

def OriginMap.Sound (limit : Nat) (map : OriginMap) : Prop :=
  RunsSound limit map.outputLength map.runs

def OriginWriter.Sound (limit : Nat) (writer : OriginWriter) : Prop :=
  RunsSound limit writer.outputLength writer.runs

theorem mem_toRuns {runs : List OriginRun} {run : OriginRun} (member : run ∈ runs) :
    run.toRun ∈ toRuns runs := List.mem_map_of_mem member

theorem RunsSound.sorted {limit outputLength : Nat} {runs : List OriginRun}
    (sound : RunsSound limit outputLength runs) :
    runs.Pairwise (fun left right => left.toRun.stop ≤ right.toRun.start) :=
  List.pairwise_map.mp sound.wellFormed.sorted

theorem RunsSound.positive {limit outputLength : Nat} {runs : List OriginRun}
    (sound : RunsSound limit outputLength runs) {run : OriginRun} (member : run ∈ runs) :
    0 < run.outputLength :=
  sound.wellFormed.positive run.toRun (mem_toRuns member)

theorem firstRun_spec {limit : Nat} {map : OriginMap} (sound : map.Sound limit) (offset : Nat) :
    (∀ run ∈ map.runs.take (firstRun map offset), run.toRun.stop ≤ offset) ∧
      ∀ run ∈ map.runs.drop (firstRun map offset), offset < run.toRun.stop := by
  have monotone : map.runs.Pairwise (fun one two => runEndsBy offset two → runEndsBy offset one) := by
    refine sound.sorted.imp_of_mem ?_
    intro one two oneMember twoMember before ends
    rw [runEndsBy_iff (sound.valid two twoMember)] at ends
    rw [runEndsBy_iff (sound.valid one oneMember)]
    simp only [toRun_stop, toRun_start] at *
    omega
  obtain ⟨before, behind⟩ := firstRunFrom_spec monotone (Nat.zero_le _) le_rfl (by simp) (by simp)
  refine ⟨fun run member => ?_, fun run member => ?_⟩
  · exact (runEndsBy_iff (sound.valid run (List.mem_of_mem_take member))).mp (before run member)
  · have ends := behind run member
    rw [← Bool.not_eq_true, runEndsBy_iff (sound.valid run (List.mem_of_mem_drop member))] at ends
    omega

/-! ## Lookups -/

/-- The answer for a range of `length` bytes that this image describes. -/
def imageOrigin (length : Nat) : Image WholeOrigin → Origin
  | .linear source => ⟨.source, source, length⟩
  | .atomic (kind, source, sourceLength) =>
    if kind = .generated then ⟨.generated, 0, 0⟩ else ⟨.source, source, sourceLength⟩

/-- The binary search finds the run that holds an offset. -/
theorem drop_firstRun {limit : Nat} {map : OriginMap} (sound : map.Sound limit) {offset : Nat}
    {run : OriginRun} (member : run ∈ map.runs) (start : run.outputOffset ≤ offset)
    (stop : offset < run.outputOffset + run.outputLength) :
    ∃ rest, map.runs.drop (firstRun map offset) = run :: rest := by
  obtain ⟨before, behind⟩ := firstRun_spec sound offset
  have sorted := sound.sorted
  rw [← List.take_append_drop (firstRun map offset) map.runs] at member sorted
  rw [List.mem_append] at member
  obtain earlier | later := member
  · have := before run earlier
    simp only [toRun_stop] at this
    omega
  · obtain ⟨-, dropSorted, -⟩ := List.pairwise_append.mp sorted
    generalize map.runs.drop (firstRun map offset) = dropped at *
    cases later with
    | head => exact ⟨_, rfl⟩
    | tail head later =>
      have := (List.pairwise_cons.mp dropSorted).1 run later
      have := behind head List.mem_cons_self
      simp only [toRun_stop, toRun_start] at *
      omega

theorem lookupExact_self {limit : Nat} {run : OriginRun} (valid : run.Valid limit)
    (atomic : run.kind ≠ .sourceLinear) :
    lookupExact run run.outputOffset (run.outputOffset + run.outputLength) =
      imageOrigin run.outputLength run.toRun.image := by
  rw [toRun_atomic atomic]
  unfold lookupExact
  rw [originSizeAdd_eq valid.output, if_neg (by simp)]
  rfl

theorem lookupLinear_within {limit : Nat} (addressable : limit ≤ sizeMax) {run : OriginRun}
    (valid : run.Valid limit) (linear : run.kind = .sourceLinear) (rest : List OriginRun)
    {offset stop : Nat} (start : run.outputOffset ≤ offset) (nonempty : offset < stop)
    (within : stop ≤ run.outputOffset + run.outputLength) :
    lookupLinear offset stop (run :: rest) offset 0 0 =
      ⟨.source, run.sourceOffset + (offset - run.outputOffset), stop - offset⟩ := by
  have source := valid.source
  have length := valid.linear linear
  have end' : min (run.outputOffset + run.outputLength) stop = stop := min_eq_right within
  have some' : originSizeAdd (run.sourceOffset + (offset - run.outputOffset)) (stop - offset) =
      some (run.sourceOffset + (offset - run.outputOffset) + (stop - offset)) :=
    originSizeAdd_eq (by omega)
  rw [lookupLinear, if_pos nonempty]
  simp only [originSizeAdd_eq valid.output]
  rw [if_neg (by simp only [linear, ne_eq, not_true_eq_false, or_false]; omega)]
  simp only [@originSizeAdd_eq run.sourceOffset (offset - run.outputOffset) (by omega), ne_eq,
    not_true_eq_false, false_and, if_false, end', some', if_true]
  cases rest with
  | nil => simp [lookupLinear]
  | cons next rest => simp [lookupLinear]

/-- A range that runs over the end of a linear run has no answer, since the next run does not
continue it. -/
theorem lookupLinear_beyond {limit : Nat} (addressable : limit ≤ sizeMax) {run : OriginRun}
    {rest : List OriginRun} (valid : ∀ other ∈ run :: rest, other.Valid limit)
    (sorted : (run :: rest).Pairwise (fun left right => left.toRun.stop ≤ right.toRun.start))
    (separated : Separated (toRuns (run :: rest))) {offset stop : Nat}
    (start : run.outputOffset ≤ offset) (inside : offset < run.outputOffset + run.outputLength)
    (beyond : run.outputOffset + run.outputLength < stop) :
    lookupLinear offset stop (run :: rest) offset 0 0 = .unknown := by
  have runValid := valid run List.mem_cons_self
  have end' : min (run.outputOffset + run.outputLength) stop = run.outputOffset + run.outputLength :=
    min_eq_left beyond.le
  rw [lookupLinear, if_pos (by omega)]
  simp only [originSizeAdd_eq runValid.output]
  split
  next invalid => rfl
  next continues =>
    have linear : run.kind = .sourceLinear := by
      by_contra atomic
      exact continues (.inr (.inr atomic))
    have length := runValid.linear linear
    have source := runValid.source
    have some' : originSizeAdd (run.sourceOffset + (offset - run.outputOffset))
        (run.outputOffset + run.outputLength - offset) = some (run.sourceOffset + run.sourceLength) := by
      rw [originSizeAdd_eq (by omega)]
      congr 1
      omega
    simp only [@originSizeAdd_eq run.sourceOffset (offset - run.outputOffset) (by omega), ne_eq,
      not_true_eq_false, false_and, if_false, end', some', if_true]
    cases rest with
    | nil => rw [lookupLinear, if_pos beyond]
    | cons next rest =>
      rw [lookupLinear, if_pos beyond]
      have nextValid := valid next (by simp)
      simp only [originSizeAdd_eq nextValid.output]
      split
      next invalid => rfl
      next continues =>
        have nextLinear : next.kind = .sourceLinear := by
          by_contra atomic
          exact continues (.inr (.inr atomic))
        have touching := (List.pairwise_cons.mp sorted).1 next List.mem_cons_self
        simp only [toRun_stop, toRun_start] at touching
        obtain touches : run.outputOffset + run.outputLength = next.outputOffset := by omega
        have nextSource := nextValid.source
        have apart : run.toRun.mergeable next.toRun = false := (List.isChain_cons_cons.mp separated).1
        -- The next run touches this one, so that it cannot continue it in the source as well.
        have elsewhere : next.sourceOffset ≠ run.sourceOffset + run.sourceLength := by
          intro continued
          rw [← Bool.not_eq_true, Run.mergeable_iff] at apart
          refine apart ⟨run.sourceOffset, toRun_linear linear, ?_, touches⟩
          rw [toRun_linear nextLinear, continued, length]
          rfl
        rw [touches, Nat.sub_self, originSizeAdd_eq (by omega)]
        simp only [Nat.add_zero]
        rw [if_pos ⟨by omega, elsewhere⟩]

/-- The single run behind an answer. -/
theorem RunsSound.exists_run {limit outputLength : Nat} {runs : List OriginRun}
    (sound : RunsSound limit outputLength runs) {start length : Nat} {image : Image WholeOrigin}
    (positive : 0 < length) (answers : Answers (toRuns runs) start length image) :
    ∃ run ∈ runs, run.outputOffset ≤ start ∧ start + length ≤ run.outputOffset + run.outputLength ∧
      ((run.kind = .sourceLinear ∧
          image = .linear (run.sourceOffset + (start - run.outputOffset))) ∨
        (run.kind ≠ .sourceLinear ∧ image = run.toRun.image ∧ run.outputOffset = start ∧
          run.outputLength = length)) := by
  cases image with
  | linear source =>
    obtain ⟨_, mapped, origin, image, lower, upper, rfl⟩ :=
      exists_run_of_covers sound.wellFormed sound.separated positive answers
    obtain ⟨run, member, rfl⟩ := List.mem_map.mp mapped
    obtain ⟨linear, rfl⟩ := kind_of_image_linear image
    exact ⟨run, member, lower, upper, .inl ⟨linear, rfl⟩⟩
  | atomic payload =>
    obtain ⟨run, member, whole⟩ := List.mem_map.mp answers
    obtain ⟨rfl, rfl, image⟩ : run.outputOffset = start ∧ run.outputLength = length ∧
        run.toRun.image = .atomic payload := ⟨congrArg Run.start whole, congrArg Run.length whole,
      congrArg Run.image whole⟩
    exact ⟨run, member, le_rfl, le_rfl, .inr ⟨(kind_of_image_atomic image).1, image.symm, rfl, rfl⟩⟩

theorem lookup_of_answers {limit : Nat} (addressable : limit ≤ sizeMax) {map : OriginMap}
    (sound : map.Sound limit) {offset length : Nat} {image : Image WholeOrigin} (positive : 0 < length)
    (answers : Answers (toRuns map.runs) offset length image) :
    originLookup (some map) offset length = imageOrigin length image := by
  obtain ⟨run, member, start, stop, what⟩ := sound.exists_run positive answers
  obtain ⟨rest, dropped⟩ := drop_firstRun sound member start (by omega)
  have valid := sound.valid run member
  have output := valid.output
  have bounded := sound.wellFormed.bounded run.toRun (mem_toRuns member)
  simp only [toRun_stop] at bounded
  unfold originLookup
  simp only [if_neg positive.ne', @originSizeAdd_eq offset length (by omega)]
  rw [if_neg (by omega), dropped]
  simp only [if_neg (not_lt.mpr start)]
  obtain ⟨linear, rfl⟩ | ⟨atomic, rfl, rfl, rfl⟩ := what
  · rw [if_neg (by simp [linear]), lookupLinear_within addressable valid linear rest start (by omega) stop,
      Nat.add_sub_cancel_left]
    rfl
  · rw [if_pos (by cases kind : run.kind <;> simp_all), lookupExact_self valid atomic]

/-- The kind of the run that a lookup finds at an offset. -/
def OriginMap.kindAt (map : OriginMap) (offset : Nat) : Option OriginRunKind :=
  (map.runs[firstRun map offset]?).map OriginRun.kind

/-- A lookup knows a range only through one run that describes it. -/
theorem answers_of_lookup {limit : Nat} (addressable : limit ≤ sizeMax) {map : OriginMap}
    (sound : map.Sound limit) {offset length : Nat}
    (known : originLookup (some map) offset length ≠ .unknown) :
    0 < length ∧ ∃ image, Answers (toRuns map.runs) offset length image ∧
      ((∃ source, image = .linear source) ↔ map.kindAt offset = some .sourceLinear) := by
  have ends := (firstRun_spec sound offset).2
  have tail : ∀ run ∈ map.runs.drop (firstRun map offset), run ∈ map.runs :=
    fun run member => List.mem_of_mem_drop member
  have sorted := sound.sorted.sublist (List.drop_sublist (firstRun map offset) map.runs)
  have separated : Separated (toRuns (map.runs.drop (firstRun map offset))) := by
    have := sound.separated.drop (firstRun map offset)
    rwa [toRuns, ← List.map_drop] at this
  have head : ∀ run rest, map.runs.drop (firstRun map offset) = run :: rest →
      map.kindAt offset = some run.kind := by
    intro run rest dropped
    rw [OriginMap.kindAt, ← List.head?_drop, dropped]
    rfl
  unfold originLookup at known
  dsimp only at known
  split at known
  next => exact absurd rfl known
  next nonempty =>
    have positive := Nat.pos_of_ne_zero nonempty
    refine ⟨positive, ?_⟩
    split at known
    next => exact absurd rfl known
    next parserEnd added =>
      obtain ⟨rfl, -⟩ := originSizeAdd_some added
      split at known
      next => exact absurd rfl known
      next =>
        split at known
        next => exact absurd rfl known
        next run rest dropped =>
          -- the first run that ends behind the offset is the only one that can describe the range
          rw [dropped] at ends tail sorted separated
          have valid := sound.valid run (tail run List.mem_cons_self)
          have inside := ends run List.mem_cons_self
          simp only [toRun_stop] at inside
          have kindAt := head run rest dropped
          split at known
          next => exact absurd rfl known
          next start =>
            split at known
            next atomic =>
              -- an atomic run answers for its whole output only
              have notLinear : run.kind ≠ .sourceLinear := by
                obtain kind | kind := atomic
                · simp [kind]
                · simp [kind]
              unfold lookupExact at known
              split at known
              next => exact absurd rfl known
              next whole =>
                rw [originSizeAdd_eq valid.output] at whole
                simp only [ne_eq, Option.some.injEq, not_or, not_not] at whole
                obtain ⟨rfl, sameEnd⟩ := whole
                obtain rfl : run.outputLength = length := by omega
                refine ⟨run.toRun.image, ?_, ?_⟩
                · rw [toRun_atomic notLinear]
                  have := mem_toRuns (tail run List.mem_cons_self)
                  rwa [OriginRun.toRun, if_neg notLinear] at this
                · rw [toRun_atomic notLinear, kindAt]
                  simp [notLinear]
            next linear =>
              obtain kind : run.kind = .sourceLinear := by
                cases kind : run.kind <;> simp_all
              -- a linear run may be left behind by the range, and the later runs never complete it
              by_cases within : offset + length ≤ run.outputOffset + run.outputLength
              · refine ⟨.linear (run.sourceOffset + (offset - run.outputOffset)), ?_, by simp [kindAt, kind]⟩
                intro position less
                refine ⟨run.toRun, mem_toRuns (tail run List.mem_cons_self), run.sourceOffset,
                  toRun_linear kind, ?_⟩
                simp only [toRun_start, toRun_stop]
                omega
              · refine absurd ?_ known
                exact lookupLinear_beyond addressable (fun other member => sound.valid other (tail other member))
                  sorted separated (by omega) inside (by omega)

theorem lookup_bounded {limit : Nat} (addressable : limit ≤ sizeMax) {map : OriginMap}
    (sound : map.Sound limit) (offset length : Nat) :
    (originLookup (some map) offset length).sourceOffset +
      (originLookup (some map) offset length).sourceLength ≤ limit := by
  by_cases known : originLookup (some map) offset length = .unknown
  · rw [known]
    exact Nat.zero_le _
  · obtain ⟨positive, image, answers, -⟩ := answers_of_lookup addressable sound known
    rw [lookup_of_answers addressable sound positive answers]
    obtain ⟨run, member, start, stop, ⟨linear, rfl⟩ | ⟨atomic, rfl, -⟩⟩ :=
      sound.exists_run positive answers
    · have source := (sound.valid run member).source
      have := (sound.valid run member).linear linear
      simp only [imageOrigin]
      omega
    · have source := (sound.valid run member).source
      rw [toRun_atomic atomic]
      simp only [imageOrigin]
      split
      next => exact Nat.zero_le _
      next => exact source

/-! ## Appending -/

/-- An operation that appends bytes and pushes runs over them. -/
structure Appends (limit : Nat) (before after : OriginWriter) (items : List (Run WholeOrigin)) :
    Prop where
  map : after.map = before.map
  runs : toRuns after.runs = pushAll (toRuns before.runs) items
  valid : ∀ run ∈ after.runs, run.Valid limit
  grows : before.outputLength ≤ after.outputLength
  addressable : after.outputLength ≤ sizeMax
  wellFormed : WellFormed after.outputLength items
  behind : ∀ item ∈ items, before.outputLength ≤ item.start

theorem Appends.sound {limit : Nat} {before after : OriginWriter} {items : List (Run WholeOrigin)}
    (appends : Appends limit before after items) (sound : before.Sound limit) : after.Sound limit where
  wellFormed := by
    rw [appends.runs]
    exact pushAll_wellFormed sound.wellFormed appends.wellFormed appends.grows appends.behind
  separated := by
    rw [appends.runs]
    exact pushAll_separated items sound.separated
  valid := appends.valid
  addressable := appends.addressable

theorem Appends.trans {limit : Nat} {before middle after : OriginWriter}
    {first second : List (Run WholeOrigin)} (one : Appends limit before middle first)
    (two : Appends limit middle after second) : Appends limit before after (first ++ second) where
  map := two.map.trans one.map
  runs := by rw [two.runs, one.runs, pushAll, pushAll, pushAll, List.foldl_append]
  valid := two.valid
  grows := one.grows.trans two.grows
  addressable := two.addressable
  wellFormed := by
    have lifted := one.wellFormed.weaken two.grows
    refine ⟨List.pairwise_append.mpr ⟨lifted.sorted, two.wellFormed.sorted, ?_⟩, ?_, ?_⟩
    · exact fun left leftMember right rightMember =>
        (one.wellFormed.bounded left leftMember).trans (two.behind right rightMember)
    · exact fun run member => (List.mem_append.mp member).elim (lifted.positive run)
        (two.wellFormed.positive run)
    · exact fun run member => (List.mem_append.mp member).elim (lifted.bounded run)
        (two.wellFormed.bounded run)
  behind := fun item member => (List.mem_append.mp member).elim (one.behind item)
    (fun later => one.grows.trans (two.behind item later))

theorem Pushes.appends {limit outputEnd : Nat} {before after : OriginWriter}
    {items : List (Run WholeOrigin)} (pushes : Pushes limit before after items)
    (grows : before.outputLength ≤ outputEnd) (addressable : outputEnd ≤ sizeMax)
    (wellFormed : WellFormed outputEnd items) (behind : ∀ item ∈ items, before.outputLength ≤ item.start) :
    Appends limit before { after with outputLength := outputEnd } items :=
  ⟨pushes.map, pushes.runs, pushes.valid, grows, addressable, wellFormed, behind⟩

theorem appends_nothing {limit outputEnd : Nat} {writer : OriginWriter} (sound : writer.Sound limit)
    (grows : writer.outputLength ≤ outputEnd) (addressable : outputEnd ≤ sizeMax) :
    Appends limit writer { writer with outputLength := outputEnd } [] :=
  (Pushes.refl sound.valid).appends grows addressable
    ⟨List.Pairwise.nil, by simp, by simp⟩ (by simp)

/-! ## Copying input ranges -/

theorem inputRunPart_spec {limit base inputOffset inputEnd : Nat} (addressable : limit ≤ sizeMax)
    {run : OriginRun} (valid : run.Valid limit)
    (nonempty : max run.outputOffset inputOffset < min (run.outputOffset + run.outputLength) inputEnd)
    (whole : run.kind = .sourceLinear ∨
      inputOffset ≤ run.outputOffset ∧ run.outputOffset + run.outputLength ≤ inputEnd)
    (room : base + (inputEnd - inputOffset) ≤ sizeMax) :
    ∃ part, part = inputRunPart base inputOffset (max run.outputOffset inputOffset)
        (min (run.outputOffset + run.outputLength) inputEnd) run ∧
      clip inputOffset inputEnd base run.toRun = some part.toRun ∧ part.Valid limit ∧
        part.outputLength ≠ 0 := by
  have source := valid.source
  have output := valid.output
  refine ⟨_, rfl, ?_⟩
  unfold inputRunPart
  have outputOffset : (base + max run.outputOffset inputOffset - inputOffset) % (sizeMax + 1) =
      base + (max run.outputOffset inputOffset - inputOffset) := by
    rw [Nat.mod_eq_of_lt (by omega)]
    omega
  rw [outputOffset]
  by_cases linear : run.kind = .sourceLinear
  · have length := valid.linear linear
    have sourceOffset : (run.sourceOffset + max run.outputOffset inputOffset - run.outputOffset) %
        (sizeMax + 1) = run.sourceOffset + (max run.outputOffset inputOffset - run.outputOffset) := by
      rw [Nat.mod_eq_of_lt (by omega)]
      omega
    rw [sourceOffset, if_pos linear]
    refine ⟨clip_linear (toRun_linear linear) nonempty, ⟨fun _ => rfl, ?_, ?_⟩, ?_⟩
    · simp only
      omega
    · simp only
      omega
    · simp only
      omega
  · obtain ⟨afterLower, beforeUpper⟩ := whole.resolve_left linear
    rw [max_eq_left afterLower, min_eq_left beforeUpper, if_neg linear, Nat.add_sub_cancel_left]
    refine ⟨?_, ⟨fun is => absurd is linear, source, ?_⟩, ?_⟩
    · have := @clip_atomic WholeOrigin inputOffset inputEnd base run.outputOffset run.outputLength
        (run.kind, run.sourceOffset, run.sourceLength) (by omega) afterLower beforeUpper
      simpa [OriginRun.toRun, linear] using this
    · simp only
      omega
    · simp only
      omega

theorem window_cons (run : OriginRun) (runs : List OriginRun) (lower upper base : Nat) :
    window (toRuns (run :: runs)) lower upper base =
      (clip lower upper base run.toRun).toList ++ window (toRuns runs) lower upper base := by
  simp only [window, toRuns, List.map_cons, List.filterMap_cons]
  cases clip lower upper base run.toRun with
  | none => rfl
  | some part => rfl

theorem window_outside {runs : List OriginRun} {lower upper base : Nat}
    (outside : ∀ run ∈ runs, min run.toRun.stop upper ≤ max run.toRun.start lower) :
    window (toRuns runs) lower upper base = [] := by
  refine List.filterMap_eq_nil_iff.mpr ?_
  intro mapped member
  obtain ⟨run, runMember, rfl⟩ := List.mem_map.mp member
  exact clip_outside (outside run runMember)

theorem appendInputRuns_ok {limit inputOffset inputEnd : Nat} (addressable : limit ≤ sizeMax)
    {realloc : Realloc} {runs : List OriginRun} {writer after : OriginWriter}
    (valid : ∀ run ∈ writer.runs, run.Valid limit) (runsValid : ∀ run ∈ runs, run.Valid limit)
    (sorted : runs.Pairwise (fun left right => left.toRun.stop ≤ right.toRun.start))
    (room : writer.outputLength + (inputEnd - inputOffset) ≤ sizeMax)
    (done : writer.appendInputRuns realloc inputOffset inputEnd runs = .ok after) :
    Pushes limit writer after (window (toRuns runs) inputOffset inputEnd writer.outputLength) := by
  induction runs generalizing writer with
  | nil =>
    cases done
    exact Pushes.refl valid
  | cons run rest inductionHypothesis =>
    have runValid := runsValid run List.mem_cons_self
    have restValid := fun other member => runsValid other (List.mem_cons_of_mem run member)
    obtain ⟨first, restSorted⟩ := List.pairwise_cons.mp sorted
    unfold OriginWriter.appendInputRuns at done
    rw [originSizeAdd_eq runValid.output] at done
    dsimp only at done
    split at done
    next behind =>
      cases done
      rw [window_outside]
      · exact Pushes.refl valid
      · intro other member
        cases member with
        | head => exact (min_le_right _ _).trans (behind.trans (le_max_left _ _))
        | tail _ later =>
          have := first other later
          simp only [toRun_stop, toRun_start] at *
          omega
    next =>
      rw [window_cons]
      split at done
      next nonempty =>
        split at done
        next cut =>
          rw [clip_cut (toRun_atomic cut.1) (by simp only [toRun_start, toRun_stop]; omega)]
          exact inductionHypothesis valid restValid restSorted room done
        next whole =>
          obtain ⟨part, rfl, clipped, partValid, partNonempty⟩ :=
            inputRunPart_spec addressable runValid nonempty (by grind) room
          split at done
          next error => cases done
          next middle appended =>
            have pushed := appendRun_ok addressable valid partValid appended
            rw [storedRuns, if_neg partNonempty] at pushed
            have continued := inductionHypothesis pushed.valid restValid restSorted
              (by rw [pushed.outputLength]; exact room) done
            rw [pushed.outputLength] at continued
            rw [clipped]
            exact pushed.trans continued
      next empty =>
        rw [clip_outside (not_lt.mp empty)]
        exact inductionHypothesis valid restValid restSorted room done

theorem window_drop {limit : Nat} {map : OriginMap} (sound : map.Sound limit) (lower upper base : Nat) :
    window (toRuns (map.runs.drop (firstRun map lower))) lower upper base =
      window (toRuns map.runs) lower upper base := by
  have outside := @window_outside (map.runs.take (firstRun map lower)) lower upper base
    (fun run member => (min_le_left _ _).trans
      (((firstRun_spec sound lower).1 run member).trans (le_max_right _ _)))
  conv_rhs => rw [← List.take_append_drop (firstRun map lower) map.runs]
  simp only [window, toRuns, List.map_append, List.filterMap_append] at *
  rw [outside, List.nil_append]

theorem appendInput_ok {limit inputOffset length : Nat} (addressable : limit ≤ sizeMax)
    {realloc : Realloc} {writer after : OriginWriter} (sound : writer.Sound limit) {map : OriginMap}
    (reads : writer.map = some map) (mapSound : map.Sound limit)
    (done : writer.appendInput realloc inputOffset length = .ok after) :
    Appends limit writer after
        (window (toRuns map.runs) inputOffset (inputOffset + length) writer.outputLength) ∧
      after.outputLength = writer.outputLength + length ∧ inputOffset + length ≤ map.outputLength := by
  unfold OriginWriter.appendInput at done
  split at done
  next read inputEnd outputEnd isMap inputAdded outputAdded =>
    obtain rfl : map = read := Option.some.inj (reads.symm.trans isMap)
    obtain ⟨rfl, -⟩ := originSizeAdd_some inputAdded
    obtain ⟨rfl, outputSmall⟩ := originSizeAdd_some outputAdded
    have outputSmall := outputSmall sound.addressable
    split at done
    next => cases done
    next inside =>
      refine ⟨?_, ?_, not_lt.mp inside⟩
      · split at done
        next empty =>
          cases done
          subst empty
          rw [Nat.add_zero, window_outside (fun run member => (min_le_right _ _).trans (le_max_right _ _))]
          exact appends_nothing sound le_rfl sound.addressable
        next nonempty =>
          split at done
          next => cases done
          next middle copied =>
            cases done
            have pushed := appendInputRuns_ok addressable sound.valid
              (fun run member => mapSound.valid run (List.mem_of_mem_drop member))
              (mapSound.sorted.sublist (List.drop_sublist _ _)) (by omega) copied
            rw [window_drop mapSound] at pushed
            refine pushed.appends (by omega) outputSmall ?_ window_start
            have wellFormed := window_wellFormed mapSound.wellFormed inputOffset (inputOffset + length)
              writer.outputLength
            rwa [Nat.add_sub_cancel_left] at wellFormed
      · split at done
        next empty =>
          cases done
          omega
        next nonempty =>
          split at done
          next => cases done
          next middle copied =>
            cases done
            rfl
  next => cases done

theorem appendUnknown_ok {limit length : Nat} {writer after : OriginWriter} (sound : writer.Sound limit)
    (done : writer.appendUnknown length = .ok after) :
    Appends limit writer after [] ∧ after.outputLength = writer.outputLength + length := by
  unfold OriginWriter.appendUnknown at done
  split at done
  next map outputEnd _ outputAdded =>
    cases done
    obtain ⟨rfl, outputSmall⟩ := originSizeAdd_some outputAdded
    exact ⟨appends_nothing sound (by omega) (outputSmall sound.addressable), rfl⟩
  next => cases done

/-! ## Appending identifiers -/

/-- The runs that record an identifier of this origin. -/
def originRuns (origin : Origin) (start length : Nat) : List (Run WholeOrigin) :=
  if length = 0 then []
  else
    match origin.kind with
    | .unknown => []
    | .generated => [⟨start, length, .atomic (.generated, 0, 0)⟩]
    | .source => [⟨start, length, .atomic (.sourceIdentifier, origin.sourceOffset, origin.sourceLength)⟩]

theorem originRuns_unknown {origin : Origin} (unknown : origin.kind = .unknown) (start length : Nat) :
    originRuns origin start length = [] := by
  simp [originRuns, unknown]

theorem originRuns_generated {origin : Origin} (generated : origin.kind = .generated)
    (start length : Nat) :
    originRuns origin start length = originRuns ⟨.generated, 0, 0⟩ start length := by
  simp [originRuns, generated]

theorem originRuns_source {origin : Origin} (source : origin.kind = .source) (start length : Nat) :
    originRuns origin start length =
      storedRuns ⟨.sourceIdentifier, start, length, origin.sourceOffset, origin.sourceLength⟩ := by
  simp [originRuns, source, storedRuns, OriginRun.toRun]

theorem originRuns_wellFormed (origin : Origin) (start length : Nat) :
    WellFormed (start + length) (originRuns origin start length) ∧
      ∀ item ∈ originRuns origin start length, start ≤ item.start := by
  unfold originRuns
  split
  next => exact ⟨⟨List.Pairwise.nil, by simp, by simp⟩, by simp⟩
  next nonempty =>
    have positive := Nat.pos_of_ne_zero nonempty
    split
    next => exact ⟨⟨List.Pairwise.nil, by simp, by simp⟩, by simp⟩
    next => exact ⟨⟨List.pairwise_singleton _ _, by simpa using positive, by simp [Run.stop]⟩, by simp⟩
    next => exact ⟨⟨List.pairwise_singleton _ _, by simpa using positive, by simp [Run.stop]⟩, by simp⟩

theorem appendIdentifierRun_ok {limit : Nat} (addressable : limit ≤ sizeMax) {realloc : Realloc}
    {writer after : OriginWriter} (sound : writer.Sound limit) {run : OriginRun}
    (runValid : run.Valid limit) (start : run.outputOffset = writer.outputLength)
    (done : writer.appendIdentifierRun realloc run (writer.outputLength + run.outputLength) = .ok after) :
    Appends limit writer after (storedRuns run) ∧
      after.outputLength = writer.outputLength + run.outputLength := by
  unfold OriginWriter.appendIdentifierRun at done
  split at done
  next => cases done
  next middle stored =>
    cases done
    have output := runValid.output
    have pushed := appendRun_ok addressable sound.valid runValid stored
    refine ⟨pushed.appends (by omega) (by omega) ?_ ?_, rfl⟩
    · unfold storedRuns
      split
      next => exact ⟨List.Pairwise.nil, by simp, by simp⟩
      next nonempty =>
        exact ⟨List.pairwise_singleton _ _, by simpa using Nat.pos_of_ne_zero nonempty, by simp [start]⟩
    · unfold storedRuns
      split
      next => simp
      next => simp [start]

theorem appendGeneratedIdentifier_ok {limit length : Nat} (addressable : limit ≤ sizeMax)
    {realloc : Realloc} {writer after : OriginWriter} (sound : writer.Sound limit)
    (done : writer.appendGeneratedIdentifier realloc length = .ok after) :
    Appends limit writer after (originRuns ⟨.generated, 0, 0⟩ writer.outputLength length) ∧
      after.outputLength = writer.outputLength + length := by
  unfold OriginWriter.appendGeneratedIdentifier at done
  split at done
  next map outputEnd _ outputAdded =>
    obtain ⟨rfl, outputSmall⟩ := originSizeAdd_some outputAdded
    exact appendIdentifierRun_ok addressable sound
      ⟨fun kind => (OriginRunKind.noConfusion kind), Nat.zero_le _, outputSmall sound.addressable⟩ rfl done
  next => cases done

theorem appendSourceIdentifier_ok {limit inputOffset inputLength outputLength : Nat}
    (addressable : limit ≤ sizeMax) {realloc : Realloc} {writer after : OriginWriter}
    (sound : writer.Sound limit) {map : OriginMap} (reads : writer.map = some map)
    (mapSound : map.Sound limit)
    (done : writer.appendSourceIdentifier realloc inputOffset inputLength outputLength = .ok after) :
    Appends limit writer after
        (originRuns (originLookup (some map) inputOffset inputLength) writer.outputLength outputLength) ∧
      after.outputLength = writer.outputLength + outputLength := by
  have bounded := lookup_bounded addressable mapSound inputOffset inputLength
  unfold OriginWriter.appendSourceIdentifier at done
  split at done
  next read outputEnd isMap outputAdded =>
    obtain rfl : map = read := Option.some.inj (reads.symm.trans isMap)
    obtain ⟨rfl, outputSmall⟩ := originSizeAdd_some outputAdded
    have outputSmall := outputSmall sound.addressable
    dsimp only at done
    split at done
    next unknown =>
      cases done
      rw [originRuns_unknown unknown]
      exact ⟨appends_nothing sound (by omega) outputSmall, rfl⟩
    next generated =>
      rw [originRuns_generated generated]
      exact appendGeneratedIdentifier_ok addressable sound done
    next source =>
      rw [originRuns_source source]
      exact appendIdentifierRun_ok addressable sound
        ⟨fun kind => (OriginRunKind.noConfusion kind), bounded, outputSmall⟩ rfl done
  next => cases done

/-! ## Appending a map -/

/-- The runs that appending one run of another map pushes: its answers looked up in this map. -/
def mapRunItems (map : OriginMap) (inputOffset start : Nat) (run : OriginRun) :
    List (Run WholeOrigin) :=
  match run.kind with
  | .generated => originRuns ⟨.generated, 0, 0⟩ start run.outputLength
  | .sourceLinear =>
    window (toRuns map.runs) (inputOffset + run.sourceOffset)
      (inputOffset + run.sourceOffset + run.sourceLength) start
  | .sourceIdentifier =>
    originRuns (originLookup (some map) (inputOffset + run.sourceOffset) run.sourceLength) start
      run.outputLength

def mapItems (map : OriginMap) (inputOffset base : Nat) (runs : List OriginRun) :
    List (Run WholeOrigin) :=
  runs.flatMap (fun run => mapRunItems map inputOffset (base + run.outputOffset) run)

theorem appendMapRun_ok {limit inputOffset : Nat} (addressable : limit ≤ sizeMax) {realloc : Realloc}
    {writer after : OriginWriter} (sound : writer.Sound limit) {map : OriginMap}
    (reads : writer.map = some map) (mapSound : map.Sound limit) {run : OriginRun}
    (done : writer.appendMapRun realloc inputOffset run = .ok after) :
    Appends limit writer after (mapRunItems map inputOffset writer.outputLength run) ∧
      after.outputLength = writer.outputLength + run.outputLength := by
  unfold OriginWriter.appendMapRun at done
  unfold mapRunItems
  split at done
  next generated =>
    rw [generated]
    exact appendGeneratedIdentifier_ok addressable sound done
  next notGenerated =>
    split at done
    next => cases done
    next inputRunOffset added =>
      obtain ⟨rfl, -⟩ := originSizeAdd_some added
      split at done
      next linear =>
        rw [linear]
        split at done
        next => cases done
        next sameLength =>
          obtain ⟨appends, ends, -⟩ := appendInput_ok addressable sound reads mapSound done
          exact ⟨appends, by rw [ends, not_not.mp sameLength]⟩
      next notLinear =>
        obtain identifier : run.kind = .sourceIdentifier := by
          cases kind : run.kind <;> simp_all
        rw [identifier]
        exact appendSourceIdentifier_ok addressable sound reads mapSound done

theorem appendMapRuns_ok {limit inputOffset mapLength base : Nat} (addressable : limit ≤ sizeMax)
    {realloc : Realloc} {runs : List OriginRun} {writer after : OriginWriter} {cursor cursor' : Nat}
    (sound : writer.Sound limit) {map : OriginMap} (reads : writer.map = some map)
    (mapSound : map.Sound limit) (aligned : writer.outputLength = base + cursor)
    (done : writer.appendMapRuns realloc mapLength inputOffset cursor runs = .ok (after, cursor')) :
    Appends limit writer after (mapItems map inputOffset base runs) ∧
      after.outputLength = base + cursor' := by
  induction runs generalizing writer cursor with
  | nil =>
    cases done
    exact ⟨appends_nothing sound le_rfl sound.addressable, aligned⟩
  | cons run rest inductionHypothesis =>
    unfold OriginWriter.appendMapRuns at done
    split at done
    next => cases done
    next runEnd added =>
      obtain ⟨rfl, -⟩ := originSizeAdd_some added
      split at done
      next => cases done
      next ordered =>
        split at done
        next => cases done
        next reached gap =>
          obtain ⟨skips, reachedLength⟩ := appendUnknown_ok sound gap
          obtain start : reached.outputLength = base + run.outputOffset := by omega
          split at done
          next => cases done
          next written one =>
            obtain ⟨writes, writtenLength⟩ :=
              appendMapRun_ok addressable (skips.sound sound) (skips.map.trans reads) mapSound one
            obtain ⟨continues, finalLength⟩ := inductionHypothesis (writes.sound (skips.sound sound))
              (writes.map.trans (skips.map.trans reads)) (by omega) done
            rw [start] at writes
            exact ⟨(skips.trans writes).trans continues, finalLength⟩

theorem appendMap_ok {limit inputOffset : Nat} (addressable : limit ≤ sizeMax) {realloc : Realloc}
    {writer after : OriginWriter} (sound : writer.Sound limit) {map inputMap : OriginMap}
    (reads : writer.map = some map) (mapSound : map.Sound limit)
    (done : writer.appendMap realloc (some inputMap) inputOffset = .ok after) :
    Appends limit writer after (mapItems map inputOffset writer.outputLength inputMap.runs) ∧
      after.outputLength = writer.outputLength + inputMap.outputLength := by
  unfold OriginWriter.appendMap at done
  simp only [reads] at done
  split at done
  next => cases done
  next outputEnd added =>
    obtain ⟨rfl, -⟩ := originSizeAdd_some added
    split at done
    next => cases done
    next walked cursor walk =>
      obtain ⟨walks, walkedLength⟩ := appendMapRuns_ok addressable sound reads mapSound (Nat.add_zero _).symm walk
      split at done
      next => cases done
      next final gap =>
        obtain ⟨skips, -⟩ := appendUnknown_ok (walks.sound sound) gap
        split at done
        next => cases done
        next sameEnd =>
          cases done
          have appends := walks.trans skips
          rw [List.append_nil] at appends
          exact ⟨appends, not_not.mp sameEnd⟩

end SqlParser.Core
