import SqlParser.Core.IdentifierSpellings

/-! # Runs of the identifier-spelling store

A history keeps, beside the store, the builds of which a location is still in use and the spellings
of the build that is under way. As long as every sweep sees a location of each such build, a location
resolves to what was appended for it and its group is not given to another build.
-/

namespace SqlParser.Core

open SqlParser.Protobuf

/-! ## What a mark reaches -/

mutual

/-- The source locations of a message and of what hangs under it. -/
def messageLocations : Protobuf.Message → List Int
  | .mk type _ quantifier fields => fieldLocations type quantifier fields

def fieldLocations (type : MessageType) (quantifier : Nat → Nat) : Fields → List Int
  | .nil => []
  | .cons field value rest =>
    (if entersField type quantifier field then
      if isSourceLocation field then ownLocation value
      else if field.type = .message then valueLocations value
      else []
    else []) ++ fieldLocations type quantifier rest

def ownLocation : Value → List Int
  | .int32 _ location => [location]
  | _ => []

def valueLocations : Value → List Int
  | .child message => messageLocations message
  | .items messages => itemLocations messages
  | _ => []

def itemLocations : Messages → List Int
  | .nil => []
  | .null rest => itemLocations rest
  | .cons message rest => messageLocations message ++ itemLocations rest

end

mutual

theorem markMessage_eq (used : List Bool) (message : Protobuf.Message) :
    markMessage used message = (messageLocations message).foldl markLocation used := by
  cases message with
  | mk type unknownFields quantifier fields => exact markFields_eq type quantifier used fields

theorem markFields_eq (type : MessageType) (quantifier : Nat → Nat) (used : List Bool) (fields : Fields) :
    markFields type quantifier used fields = (fieldLocations type quantifier fields).foldl markLocation used := by
  cases fields with
  | nil => rfl
  | cons field value rest =>
    rw [markFields, fieldLocations, List.foldl_append, markFields_eq type quantifier _ rest]
    congr 1
    split
    next =>
      split
      next =>
        cases value with
        | int32 slot location => rfl
        | string | other | absent | child | items | missingItems => rfl
      next =>
        split
        next => exact markValue_eq used value
        next => rfl
    next => rfl

theorem markValue_eq (used : List Bool) (value : Value) :
    markValue used value = (valueLocations value).foldl markLocation used := by
  cases value with
  | child message => exact markMessage_eq used message
  | items messages => exact markItems_eq used messages
  | int32 | string | other | absent | missingItems => rfl

theorem markItems_eq (used : List Bool) (messages : Messages) :
    markItems used messages = (itemLocations messages).foldl markLocation used := by
  cases messages with
  | nil => rfl
  | null rest => exact markItems_eq used rest
  | cons message rest =>
    rw [markItems, itemLocations, List.foldl_append, markMessage_eq used message, markItems_eq _ rest]

end

theorem markLocation_length (used : List Bool) (location : Int) : (markLocation used location).length = used.length := by
  unfold markLocation
  split
  next => exact List.length_set
  next => rfl

/-- A mark stays. -/
theorem markLocations_kept {used : List Bool} {group : Nat} (marked : used[group]? = some true) (locations : List Int) :
    (locations.foldl markLocation used)[group]? = some true := by
  induction locations generalizing used with
  | nil => exact marked
  | cons location locations inductionHypothesis =>
    apply inductionHypothesis
    unfold markLocation
    split
    next =>
      obtain ⟨bound, -⟩ := List.getElem?_eq_some_iff.mp marked
      rw [List.getElem?_set]
      split
      next => rw [if_pos (by omega)]
      next => exact marked
    next => exact marked

/-- Every group to which a location leads is marked. -/
theorem markLocations_marks (used : List Bool) {locations : List Int} {location : Int} (member : location ∈ locations)
    (spelling : isIdentifierSpelling location = true) (bound : spellingGroup location < used.length) :
    (locations.foldl markLocation used)[spellingGroup location]? = some true := by
  induction locations generalizing used with
  | nil => cases member
  | cons head locations inductionHypothesis =>
    rw [List.foldl_cons]
    cases member with
    | head =>
      apply markLocations_kept
      rw [markLocation, if_pos ⟨spelling, bound⟩, List.getElem?_set_self bound]
    | tail _ member => exact inductionHypothesis _ member (by rwa [markLocation_length])

/-! ## Histories -/

/-- A build of which a location is in use: its group, and the spellings appended for it in order. -/
structure SpellingBuild where
  group : Nat
  spellings : List Text
  deriving DecidableEq, Repr

structure SpellingHistory where
  store : SpellingStore
  live : List SpellingBuild
  building : List Text

def SpellingHistory.initial : SpellingHistory := ⟨.initial, [], []⟩

inductive SpellingCall where
  | begin
  | append (memory : SpellingMemory) (spelling : Text)
  | finish
  | sweep (memory : SpellingMemory) (message : Option Protobuf.Message) (mutations : List Int)
  /-- The last use of a build is gone. -/
  | release (group : Nat)

/-- The history behind an append: a location that is handed out stands for all components so far. -/
def SpellingHistory.appended (history : SpellingHistory) (spelling : Text) (outcome : SpellingStore × Int) :
    SpellingHistory :=
  if outcome.2 = generatedLocation then { history with store := outcome.1 }
  else
    { store := outcome.1
      live := ⟨spellingGroup outcome.2, history.building ++ [spelling]⟩ ::
        history.live.filter fun build => build.group ≠ spellingGroup outcome.2
      building := history.building ++ [spelling] }

def SpellingHistory.step (history : SpellingHistory) : SpellingCall → SpellingHistory
  | .begin => { history with store := history.store.begin, building := [] }
  | .append memory spelling => history.appended spelling (history.store.append memory spelling)
  | .finish => { history with store := history.store.finish.1, building := [] }
  | .sweep memory message mutations => { history with store := history.store.sweep memory message mutations }
  | .release group => { history with live := history.live.filter fun build => build.group ≠ group }

def SpellingHistory.run (history : SpellingHistory) (calls : List SpellingCall) : SpellingHistory :=
  calls.foldl SpellingHistory.step history

/-- A location of the build is a source location of the tree or the alias location of a mutation. -/
def SpellingBuild.Referenced (build : SpellingBuild) (message : Protobuf.Message) (mutations : List Int) : Prop :=
  ∃ component < build.spellings.length,
    spellingLocation build.group component ∈ messageLocations message ++ mutations

/-- At each sweep every build in use is referenced. -/
def ReferencedAlong (history : SpellingHistory) : List SpellingCall → Prop
  | [] => True
  | call :: calls =>
    (match call with
      | .sweep _ (some message) mutations => ∀ build ∈ history.live, build.Referenced message mutations
      | _ => True) ∧ ReferencedAlong (history.step call) calls

/-- Every build in use has a group of its own that holds its spellings, and the group under way
holds what was appended since the build began. -/
structure SpellingHistory.Resolves (history : SpellingHistory) : Prop where
  held : ∀ build ∈ history.live, build.spellings ≠ [] ∧
    (history.store.groups[build.group]?).map IdentifierSpelling.parts = some build.spellings
  distinct : (history.live.map SpellingBuild.group).Nodup
  count : history.store.groups.length ≤ spellingGroupMax + 1
  full : ∀ group ∈ history.store.groups, group.parts.length ≤ spellingComponents
  opened : ∀ group, history.store.buildGroup = some group →
    (history.store.groups[group]?).map IdentifierSpelling.parts = some history.building
  closed : history.store.buildGroup = none → history.building = []

theorem initial_resolves : SpellingHistory.initial.Resolves where
  held _ member := absurd member List.not_mem_nil
  distinct := List.nodup_nil
  count := Nat.zero_le _
  full _ member := absurd member List.not_mem_nil
  opened _ opened := by cases opened
  closed _ := rfl

theorem SpellingHistory.Resolves.bounds {history : SpellingHistory} (resolves : history.Resolves) {build : SpellingBuild}
    (member : build ∈ history.live) :
    build.group < history.store.groups.length ∧ build.group ≤ spellingGroupMax ∧
      build.spellings.length ≤ spellingComponents := by
  obtain ⟨group, found, parts⟩ := Option.map_eq_some_iff.mp (resolves.held build member).2
  obtain ⟨bound, equal⟩ := List.getElem?_eq_some_iff.mp found
  have count := resolves.count
  have full := resolves.full group (equal ▸ List.getElem_mem bound)
  rw [parts] at full
  exact ⟨bound, by omega, full⟩

/-! ## Sweeping keeps what is referenced -/

theorem rdropWhile_getElem? {α : Type} {test : α → Bool} {items : List α} {index : Nat} {item : α}
    (found : items[index]? = some item) (kept : test item = false) : (items.rdropWhile test)[index]? = some item := by
  induction items using List.reverseRecOn with
  | nil => cases found
  | append_singleton items last inductionHypothesis =>
    rw [List.rdropWhile_concat]
    split
    next dropped =>
      apply inductionHypothesis
      rw [List.getElem?_append] at found
      split at found
      next => exact found
      next =>
        have isLast : last = item := by
          have member := List.mem_of_getElem? found
          exact (List.mem_singleton.mp member).symm
        rw [isLast, kept] at dropped
        cases dropped
    next => exact found

theorem sweptGroups_mem {groups : List IdentifierSpelling} {used : List Bool} {group : IdentifierSpelling}
    (member : group ∈ sweptGroups groups used) : group = .empty ∨ group ∈ groups := by
  have swept := (List.rdropWhile_prefix _ _).subset member
  obtain ⟨index, bound, equal⟩ := List.mem_iff_getElem.mp swept
  rw [List.getElem_zipWith] at equal
  split at equal
  next => exact .inr (equal ▸ List.getElem_mem _)
  next => exact .inl equal.symm

theorem sweptGroups_kept {groups : List IdentifierSpelling} {used : List Bool} {index : Nat} {group : IdentifierSpelling}
    (found : groups[index]? = some group) (marked : used[index]? = some true) (spelled : group.parts ≠ []) :
    (sweptGroups groups used)[index]? = some group := by
  apply rdropWhile_getElem?
  · rw [List.getElem?_zipWith, found, marked]
    rfl
  · simpa using spelled

theorem sweptGroups_length (groups : List IdentifierSpelling) (used : List Bool) :
    (sweptGroups groups used).length ≤ groups.length := by
  have swept := (List.rdropWhile_prefix (p := fun group : IdentifierSpelling => decide (group.parts = []))
    (List.zipWith (fun group isUsed => if isUsed then group else .empty) groups used)).length_le
  rw [List.length_zipWith] at swept
  exact swept.trans (min_le_left _ _)

/-- What a sweep does to the groups: nothing, or it keeps those that are marked. -/
theorem sweep_cases (memory : SpellingMemory) (store : SpellingStore) (message : Protobuf.Message) (mutations : List Int) :
    store.sweep memory (some message) mutations = store ∨
      (store.buildGroup = none ∧ (store.sweep memory (some message) mutations).buildGroup = none ∧
        (store.sweep memory (some message) mutations).groups = sweptGroups store.groups
          ((messageLocations message ++ mutations).foldl markLocation (List.replicate store.groups.length false))) := by
  simp only [SpellingStore.sweep]
  split
  next => exact .inl rfl
  next sweeps =>
    simp only [not_or, not_not] at sweeps
    rw [List.foldl_append, ← markMessage_eq]
    split
    next empty => exact .inr ⟨sweeps.2.1, sweeps.2.1, empty.symm⟩
    next => exact .inr ⟨sweeps.2.1, sweeps.2.1, rfl⟩

theorem sweep_resolves {history : SpellingHistory} (resolves : history.Resolves) (memory : SpellingMemory)
    (message : Option Protobuf.Message) (mutations : List Int)
    (referenced : ∀ given, message = some given → ∀ build ∈ history.live, build.Referenced given mutations) :
    (history.step (.sweep memory message mutations)).Resolves := by
  cases message with
  | none => exact resolves
  | some message =>
    rw [SpellingHistory.step]
    cases sweep_cases memory history.store message mutations with
    | inl same =>
      rw [same]
      exact resolves
    | inr swept =>
      obtain ⟨closed, stillClosed, groups⟩ := swept
      constructor
      · intro build member
        obtain ⟨spelled, held⟩ := resolves.held build member
        obtain ⟨inStore, groupBound, partBound⟩ := resolves.bounds member
        obtain ⟨group, found, parts⟩ := Option.map_eq_some_iff.mp held
        obtain ⟨component, inBuild, location⟩ := referenced message rfl build member
        have inGroup : component < spellingComponents := by omega
        have marked := markLocations_marks (List.replicate history.store.groups.length false) location
          (spellingLocation_isIdentifierSpelling groupBound inGroup)
        rw [(spellingLocation_decode groupBound inGroup).1, List.length_replicate] at marked
        have kept := sweptGroups_kept found (marked inStore) (by rw [parts]; exact spelled)
        exact ⟨spelled, by simp only [groups, kept, Option.map_some, parts]⟩
      · exact resolves.distinct
      · simp only [groups]
        exact (sweptGroups_length _ _).trans resolves.count
      · intro group member
        simp only [groups] at member
        cases sweptGroups_mem member with
        | inl empty =>
          rw [empty]
          exact Nat.zero_le _
        | inr kept => exact resolves.full group kept
      · intro group opened
        rw [stillClosed] at opened
        cases opened
      · intro _
        exact resolves.closed closed

/-! ## Appending opens a group of its own -/

theorem firstEmptyGroup_spec (groups : List IdentifierSpelling) (start : Nat) {group : IdentifierSpelling}
    (found : groups[firstEmptyGroup groups start]? = some group) : group.parts = [] := by
  unfold firstEmptyGroup at found
  rw [← List.getElem?_drop] at found
  generalize groups.drop start = rest at found
  induction rest with
  | nil => cases found
  | cons head rest inductionHypothesis =>
    rw [List.takeWhile_cons] at found
    split at found
    next => exact inductionHypothesis found
    next empty =>
      cases found
      simpa using empty

/-- What opening a group does: the open one stays, or an empty one is found or added. -/
theorem openGroup_cases {memory : SpellingMemory} {store opened : SpellingStore} {index : Nat}
    (opens : store.openGroup memory = .ok (opened, index)) :
    (store.buildGroup = some index ∧ opened = store) ∨
      (store.buildGroup = none ∧ opened.buildGroup = some index ∧ opened.groups[index]? = some .empty ∧
        (∀ group, store.groups[index]? = some group → group.parts = []) ∧
        (∀ other, other ≠ index → opened.groups[other]? = store.groups[other]?) ∧
        (store.groups.length ≤ spellingGroupMax + 1 → opened.groups.length ≤ spellingGroupMax + 1) ∧
        ∀ group ∈ opened.groups, group = .empty ∨ group ∈ store.groups) := by
  unfold SpellingStore.openGroup at opens
  split at opens
  next group already =>
    cases opens
    exact .inl ⟨already, rfl⟩
  next closed =>
    dsimp only at opens
    generalize (if store.freeGroup ≤ store.groups.length then store.freeGroup else 0) = start at opens
    split at opens
    next inside =>
      cases opens
      refine .inr ⟨closed, rfl, List.getElem?_set_self inside, fun group => firstEmptyGroup_spec _ _, ?_, ?_, ?_⟩
      · intro other different
        exact List.getElem?_set_ne different.symm
      · intro bound
        rwa [List.length_set]
      · intro group member
        exact (List.mem_or_eq_of_mem_set member).symm
    next =>
      split at opens
      next => cases opens
      next room =>
        split at opens
        next => cases opens
        next capacity grown =>
          cases opens
          refine .inr ⟨closed, rfl, List.getElem?_concat_length, ?_, ?_, ?_, ?_⟩
          · intro group found
            rw [List.getElem?_eq_none le_rfl] at found
            cases found
          · intro other different
            rw [List.getElem?_append]
            split
            next => rfl
            next =>
              rw [List.getElem?_eq_none (by simp only [List.length_singleton]; omega), List.getElem?_eq_none (by omega)]
          · intro _
            rw [List.length_append, List.length_singleton]
            omega
          · intro group member
            cases List.mem_append.mp member with
            | inl member => exact .inr member
            | inr member => exact .inl (List.mem_singleton.mp member)

theorem openGroup_resolves {history : SpellingHistory} (resolves : history.Resolves) {memory : SpellingMemory}
    {opened : SpellingStore} {index : Nat} (opens : history.store.openGroup memory = .ok (opened, index)) :
    ({ history with store := opened } : SpellingHistory).Resolves ∧ opened.buildGroup = some index ∧
      (history.store.buildGroup = none → ∀ build ∈ history.live, build.group ≠ index) := by
  cases openGroup_cases opens with
  | inl already =>
    obtain ⟨building, same⟩ := already
    subst same
    exact ⟨resolves, building, fun closed => by rw [building] at closed; cases closed⟩
  | inr fresh =>
    obtain ⟨closed, building, empty, wasEmpty, others, count, members⟩ := fresh
    -- A build in use has parts, and the group that is opened had none.
    have apart : ∀ build ∈ history.live, build.group ≠ index := by
      intro build member same
      obtain ⟨spelled, held⟩ := resolves.held build member
      obtain ⟨group, found, parts⟩ := Option.map_eq_some_iff.mp held
      rw [same] at found
      rw [wasEmpty group found] at parts
      exact spelled parts.symm
    refine ⟨⟨?_, resolves.distinct, count resolves.count, ?_, ?_, ?_⟩, building, fun _ => apart⟩
    · intro build member
      simp only [others build.group (apart build member)]
      exact resolves.held build member
    · intro group member
      cases members group member with
      | inl isEmpty =>
        rw [isEmpty]
        exact Nat.zero_le _
      | inr old => exact resolves.full group old
    · intro group isOpen
      rw [building] at isOpen
      cases isOpen
      simp only [empty, resolves.closed closed]
      rfl
    · intro isClosed
      rw [building] at isClosed
      cases isClosed

/-- An append hands out the next location of the group under way, or only its status changes. -/
theorem addPart_cases {history : SpellingHistory} (resolves : history.Resolves) (memory : SpellingMemory) {index : Nat}
    (building : history.store.buildGroup = some index) (spelling : Text) :
    (∃ status, history.store.addPart memory index spelling = ({ history.store with status := status }, generatedLocation)) ∨
      ∃ group, history.store.groups[index]? = some group ∧ group.parts = history.building ∧
        history.building.length < spellingComponents ∧
        history.store.addPart memory index spelling =
          ({ history.store with
              groups := history.store.groups.set index { group with parts := group.parts ++ [spelling] }
              lastLocation := spellingLocation index history.building.length },
            spellingLocation index history.building.length) := by
  obtain ⟨group, found, parts⟩ := Option.map_eq_some_iff.mp (resolves.opened index building)
  unfold SpellingStore.addPart
  rw [found]
  dsimp only
  split
  next => exact .inl ⟨_, rfl⟩
  next room =>
    split
    next => exact .inl ⟨_, rfl⟩
    next =>
      rw [parts] at room ⊢
      exact .inr ⟨group, rfl, parts, not_le.mp room, by rw [parts]⟩

/-- The builds behind a location that is handed out. -/
theorem appended_resolves {history : SpellingHistory} (resolves : history.Resolves) {index : Nat}
    {group : IdentifierSpelling} (building : history.store.buildGroup = some index)
    (found : history.store.groups[index]? = some group) (parts : group.parts = history.building)
    (room : history.building.length < spellingComponents) (spelling : Text) (location : Int) :
    (SpellingHistory.mk
      { history.store with
        groups := history.store.groups.set index { group with parts := group.parts ++ [spelling] }
        lastLocation := location }
      (⟨index, history.building ++ [spelling]⟩ :: history.live.filter fun build => build.group ≠ index)
      (history.building ++ [spelling])).Resolves := by
  obtain ⟨bound, -⟩ := List.getElem?_eq_some_iff.mp found
  have here : ((history.store.groups.set index { group with parts := group.parts ++ [spelling] })[index]?).map
      IdentifierSpelling.parts = some (history.building ++ [spelling]) := by
    rw [List.getElem?_set_self bound, Option.map_some, parts]
  constructor
  · intro build member
    cases member with
    | head => exact ⟨List.append_ne_nil_of_right_ne_nil _ (List.cons_ne_nil _ _), here⟩
    | tail _ member =>
      obtain ⟨old, different⟩ := List.mem_filter.mp member
      have different : build.group ≠ index := by simpa using different
      simp only [List.getElem?_set_ne different.symm]
      exact resolves.held build old
  · rw [List.map_cons, List.nodup_cons]
    constructor
    · intro member
      obtain ⟨build, held, same⟩ := List.mem_map.mp member
      simpa [same] using (List.mem_filter.mp held).2
    · exact resolves.distinct.sublist (List.filter_sublist.map SpellingBuild.group)
  · simpa using resolves.count
  · intro other member
    cases List.mem_or_eq_of_mem_set member with
    | inl old => exact resolves.full other old
    | inr new =>
      rw [new, parts, List.length_append, List.length_singleton]
      exact room
  · intro other isOpen
    have same : index = other := Option.some.inj (building.symm.trans isOpen)
    exact same ▸ here
  · intro closed
    exact absurd (building.symm.trans closed) (by simp)

theorem status_resolves {history : SpellingHistory} (resolves : history.Resolves) (status : Status) :
    ({ history with store := { history.store with status := status } } : SpellingHistory).Resolves :=
  ⟨resolves.held, resolves.distinct, resolves.count, resolves.full, resolves.opened, resolves.closed⟩

/-- What an append hands out: nothing, or the location of the component behind those of the build,
whose group no other build has. -/
theorem append_resolves {history : SpellingHistory} (resolves : history.Resolves) (memory : SpellingMemory)
    (spelling : Text) :
    (history.step (.append memory spelling)).Resolves ∧
      ((history.store.append memory spelling).2 = generatedLocation ∨
        ∃ group ≤ spellingGroupMax, history.building.length < spellingComponents ∧
          (history.store.append memory spelling).2 = spellingLocation group history.building.length ∧
          ⟨group, history.building ++ [spelling]⟩ ∈ (history.step (.append memory spelling)).live ∧
          (history.store.buildGroup = none → ∀ build ∈ history.live, build.group ≠ group)) := by
  simp only [SpellingHistory.step]
  unfold SpellingStore.append
  split
  next =>
    rw [SpellingHistory.appended, if_pos rfl]
    exact ⟨resolves, .inl rfl⟩
  next =>
    split
    next status failed =>
      rw [SpellingHistory.appended, if_pos rfl]
      exact ⟨status_resolves resolves status, .inl rfl⟩
    next opened index opens =>
      obtain ⟨openedResolves, building, fresh⟩ := openGroup_resolves resolves opens
      cases addPart_cases openedResolves memory building spelling with
      | inl failed =>
        obtain ⟨status, failed⟩ := failed
        dsimp only at failed
        rw [failed, SpellingHistory.appended, if_pos rfl]
        exact ⟨status_resolves openedResolves status, .inl rfl⟩
      | inr added =>
        obtain ⟨group, found, parts, room, added⟩ := added
        dsimp only at found parts room added
        have groupBound : index ≤ spellingGroupMax := by
          obtain ⟨bound, -⟩ := List.getElem?_eq_some_iff.mp found
          have count := openedResolves.count
          dsimp only at count
          omega
        have range := spellingLocation_range groupBound room
        have real : spellingLocation index history.building.length ≠ generatedLocation := by
          simp only [spellingLast, generatedLocation] at range ⊢
          omega
        rw [added, SpellingHistory.appended, if_neg real]
        dsimp only
        rw [(spellingLocation_decode groupBound room).1]
        exact ⟨appended_resolves openedResolves building found parts room spelling _,
          .inr ⟨index, groupBound, room, rfl, List.mem_cons_self, fresh⟩⟩

/-! ## Every run -/

theorem step_resolves {history : SpellingHistory} (resolves : history.Resolves) (call : SpellingCall)
    (referenced : ReferencedAlong history [call]) : (history.step call).Resolves := by
  cases call with
  | begin =>
    exact ⟨resolves.held, resolves.distinct, resolves.count, resolves.full, fun _ isOpen => (by cases isOpen), fun _ => rfl⟩
  | append memory spelling => exact (append_resolves resolves memory spelling).1
  | finish =>
    exact ⟨resolves.held, resolves.distinct, resolves.count, resolves.full, fun _ isOpen => (by cases isOpen), fun _ => rfl⟩
  | sweep memory message mutations =>
    apply sweep_resolves resolves
    intro given same
    subst same
    exact referenced.1
  | release group =>
    exact ⟨fun build member => resolves.held build (List.mem_filter.mp member).1,
      resolves.distinct.sublist (List.filter_sublist.map SpellingBuild.group), resolves.count, resolves.full,
      resolves.opened, resolves.closed⟩

theorem run_resolves {history : SpellingHistory} (resolves : history.Resolves) (calls : List SpellingCall)
    (referenced : ReferencedAlong history calls) : (history.run calls).Resolves := by
  induction calls generalizing history with
  | nil => exact resolves
  | cons call calls inductionHypothesis =>
    exact inductionHypothesis (step_resolves resolves call ⟨referenced.1, trivial⟩) referenced.2

theorem lookup_spelling {history : SpellingHistory} (resolves : history.Resolves) {build : SpellingBuild}
    (member : build ∈ history.live) {first : Nat} (inBuild : first < build.spellings.length) (component : Nat) :
    history.store.lookup (spellingLocation build.group first) component = build.spellings[first + component]? := by
  obtain ⟨inStore, groupBound, partBound⟩ := resolves.bounds member
  obtain ⟨group, found, parts⟩ := Option.map_eq_some_iff.mp (resolves.held build member).2
  have inGroup : first < spellingComponents := by omega
  obtain ⟨decodedGroup, decodedComponent⟩ := spellingLocation_decode groupBound inGroup
  rw [SpellingStore.lookup, if_pos (spellingLocation_isIdentifierSpelling groupBound inGroup), decodedGroup, found]
  dsimp only
  rw [decodedComponent, parts]
  split
  next beyond =>
    -- No component has such an index.
    rw [List.getElem?_eq_none]
    simp only [spellingComponents, sizeMax] at partBound inGroup beyond
    omega
  next => rw [Nat.add_comm]

/-- Whatever the order of builds and sweeps, as long as each sweep sees every build in use: the
locations of a build resolve to the spellings appended for it, no two builds share a group, a group
is opened only if no build in use has it, and every location stays in the range kept for them. -/
theorem spellings_resolve (calls : List SpellingCall) (referenced : ReferencedAlong .initial calls) :
    let history := SpellingHistory.initial.run calls
    (∀ build ∈ history.live, ∀ first < build.spellings.length,
      (∀ component, history.store.lookup (spellingLocation build.group first) component =
        build.spellings[first + component]?) ∧
      spellingBase ≤ spellingLocation build.group first ∧ spellingLocation build.group first ≤ spellingLast ∧
      spellingLocation build.group first < generatedLocation) ∧
    (history.live.map SpellingBuild.group).Nodup ∧
    (∀ left ∈ history.live, ∀ right ∈ history.live, ∀ first < left.spellings.length, ∀ second < right.spellings.length,
      spellingLocation left.group first = spellingLocation right.group second → left = right ∧ first = second) ∧
    ∀ memory spelling, (history.store.append memory spelling).2 = generatedLocation ∨
      ∃ group, (history.store.append memory spelling).2 = spellingLocation group history.building.length ∧
        ⟨group, history.building ++ [spelling]⟩ ∈ (history.step (.append memory spelling)).live ∧
        (history.store.buildGroup = none → ∀ build ∈ history.live, build.group ≠ group) := by
  intro history
  have resolves : history.Resolves := run_resolves initial_resolves calls referenced
  refine ⟨?_, resolves.distinct, ?_, ?_⟩
  · intro build member first inBuild
    obtain ⟨-, groupBound, partBound⟩ := resolves.bounds member
    obtain ⟨lower, upper⟩ := spellingLocation_range groupBound (inBuild.trans_le partBound)
    refine ⟨lookup_spelling resolves member inBuild, lower, upper, ?_⟩
    simp only [spellingLast, generatedLocation] at upper ⊢
    omega
  · intro left leftMember right rightMember first inLeft second inRight same
    obtain ⟨-, leftGroup, leftParts⟩ := resolves.bounds leftMember
    obtain ⟨-, rightGroup, rightParts⟩ := resolves.bounds rightMember
    have leftDecoded := spellingLocation_decode leftGroup (inLeft.trans_le leftParts)
    have rightDecoded := spellingLocation_decode rightGroup (inRight.trans_le rightParts)
    rw [same] at leftDecoded
    have sameGroup : left.group = right.group := leftDecoded.1.symm.trans rightDecoded.1
    exact ⟨List.inj_on_of_nodup_map resolves.distinct leftMember rightMember sameGroup,
      leftDecoded.2.symm.trans rightDecoded.2⟩
  · intro memory spelling
    cases (append_resolves resolves memory spelling).2 with
    | inl nothing => exact .inl nothing
    | inr handed =>
      obtain ⟨group, -, -, location, member, fresh⟩ := handed
      exact .inr ⟨group, location, member, fresh⟩

/-- Two builds, of which the second is released and swept, and a third that takes its group. -/
theorem spellings_resolve_reused :
    let memory : SpellingMemory := ⟨true, true, true⟩
    let calls : List SpellingCall :=
      [.begin, .append memory (ascii "a"), .append memory (ascii "b"), .begin, .append memory (ascii "c"), .finish,
        .release 1, .sweep memory (some (.mk (.other 1) 0 (fun _ => 0)
          (.cons ⟨ascii "location", 1, .none, .int32, false, 0, .other 0⟩ (.int32 0 spellingBase) .nil))) [],
        .begin, .append memory (ascii "d"), .finish]
    let history := SpellingHistory.initial.run calls
    history.live = [⟨1, [ascii "d"]⟩, ⟨0, [ascii "a", ascii "b"]⟩] ∧
      history.store.lookup (spellingLocation 0 0) 1 = some (ascii "b") ∧
      history.store.lookup (spellingLocation 1 0) 0 = some (ascii "d") := by
  intro memory calls history
  have live : history.live = [⟨1, [ascii "d"]⟩, ⟨0, [ascii "a", ascii "b"]⟩] := by decide +kernel
  have referenced : ReferencedAlong .initial calls := by
    refine ⟨trivial, trivial, trivial, trivial, trivial, trivial, trivial, ?_, trivial, trivial, trivial, trivial⟩
    intro build member
    refine ⟨0, ?_⟩
    revert build
    decide +kernel
  obtain ⟨resolve, -⟩ := spellings_resolve calls referenced
  refine ⟨live, ?_, ?_⟩
  · exact (resolve ⟨0, [ascii "a", ascii "b"]⟩ (live ▸ by simp) 0 (by decide)).1 1
  · exact (resolve ⟨1, [ascii "d"]⟩ (live ▸ by simp) 0 (by decide)).1 0

end SqlParser.Core
