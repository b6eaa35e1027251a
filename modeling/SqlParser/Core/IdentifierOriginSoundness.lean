import SqlParser.Core.IdentifierOriginRuns

/-! # Identifier origin maps say what happened to the bytes

A buffer carries, beside its bytes, where each byte was copied from and which
ranges were emitted as identifiers.  Every map that a chain of passes commits
agrees with this history, and appending one map to another composes lookups.
-/

namespace SqlParser.Core

open SqlParser.Library.RunMap

/-! ## Buffers and their history -/

/-- For every byte of a text, the position it was copied from, if it was copied. -/
abbrev CopyMap := List (Option Nat)

def Copies (copies : CopyMap) (position origin : Nat) : Prop :=
  copies[position]? = some (some origin)

/-- A committed buffer: its bytes, the source position behind each byte, and the ranges that one
identifier operation wrote, here or in an earlier pass. -/
structure Buffer where
  text : Text
  copies : CopyMap
  emitted : Nat → Nat → Prop

/-- The source text itself. -/
def Buffer.source (text : Text) : Buffer where
  text := text
  copies := (List.range text.length).map some
  emitted _ _ := False

/-- The output of a pass so far; `copies` refers to the input buffer of the pass. -/
structure Pass where
  text : Text
  copies : CopyMap
  emitted : Nat → Nat → Prop

def Pass.empty : Pass := ⟨[], [], fun _ _ => False⟩

/-- Copy a range of the input. -/
def Pass.copy (pass : Pass) (input : Buffer) (offset length : Nat) : Pass where
  text := pass.text ++ (input.text.drop offset).take length
  copies := pass.copies ++ (List.range length).map (fun position => some (offset + position))
  emitted := pass.emitted

/-- Write bytes of the pass's own. -/
def Pass.write (pass : Pass) (bytes : Text) : Pass where
  text := pass.text ++ bytes
  copies := pass.copies ++ List.replicate bytes.length none
  emitted := pass.emitted

/-- Write the bytes of one identifier. -/
def Pass.emit (pass : Pass) (bytes : Text) : Pass where
  text := pass.text ++ bytes
  copies := pass.copies ++ List.replicate bytes.length none
  emitted start length := pass.emitted start length ∨ (start = pass.text.length ∧ length = bytes.length)

/-- Write a fragment whose source was the input from `offset` on. -/
def Pass.append (pass : Pass) (fragment : Buffer) (offset : Nat) : Pass where
  text := pass.text ++ fragment.text
  copies := pass.copies ++ fragment.copies.map (Option.map (offset + ·))
  emitted start length := pass.emitted start length ∨
    ∃ inside, start = pass.text.length + inside ∧ fragment.emitted inside length

/-- A range that the pass emitted, or an unchanged copy of a range that was emitted before. -/
def Pass.Emitted (pass : Pass) (input : Buffer) (start length : Nat) : Prop :=
  pass.emitted start length ∨ ∃ origin, input.emitted origin length ∧
    ∀ offset < length, Copies pass.copies (start + offset) (origin + offset)

/-- The finished output, with its history traced back to the source. -/
def Pass.finish (pass : Pass) (input : Buffer) : Buffer where
  text := pass.text
  copies := pass.copies.map (fun origin => origin.bind (fun position => (input.copies[position]?).join))
  emitted := pass.Emitted input

/-! ## Chains of passes -/

inductive OriginStage where
  | committed (map : OriginMap) (buffer : Buffer)
  | writing (input : Buffer) (writer : OriginWriter) (pass : Pass)

/-- The stages that writer operations reach from a source text when the bytes written are the ones
the operations describe.  A fragment is a committed stage over the input text it starts from. -/
inductive OriginReachable : Text → OriginStage → Prop
  | identity {source : Text} {calloc malloc : Bool} {map : OriginMap} (fits : source.length ≤ sizeMax)
      (done : newIdentity calloc malloc source.length = .ok map) :
      OriginReachable source (.committed map (.source source))
  | begin {source : Text} {map : OriginMap} {buffer : Buffer} {inputLength : Nat} {writer : OriginWriter}
      (before : OriginReachable source (.committed map buffer))
      (done : writerBegin (some map) inputLength = .ok writer) :
      OriginReachable source (.writing buffer writer .empty)
  | appendInput {source : Text} {input : Buffer} {writer after : OriginWriter} {pass : Pass}
      {realloc : Realloc} {offset length : Nat}
      (before : OriginReachable source (.writing input writer pass))
      (done : writer.appendInput realloc offset length = .ok after) :
      OriginReachable source (.writing input after (pass.copy input offset length))
  | appendUnknown {source : Text} {input : Buffer} {writer after : OriginWriter} {pass : Pass}
      {bytes : Text} (before : OriginReachable source (.writing input writer pass))
      (done : writer.appendUnknown bytes.length = .ok after) :
      OriginReachable source (.writing input after (pass.write bytes))
  | appendGeneratedIdentifier {source : Text} {input : Buffer} {writer after : OriginWriter}
      {pass : Pass} {realloc : Realloc} {bytes : Text}
      (before : OriginReachable source (.writing input writer pass))
      (done : writer.appendGeneratedIdentifier realloc bytes.length = .ok after) :
      OriginReachable source (.writing input after (pass.emit bytes))
  | appendSourceIdentifier {source : Text} {input : Buffer} {writer after : OriginWriter}
      {pass : Pass} {realloc : Realloc} {offset length : Nat} {bytes : Text}
      (before : OriginReachable source (.writing input writer pass))
      (done : writer.appendSourceIdentifier realloc offset length bytes.length = .ok after) :
      OriginReachable source (.writing input after (pass.emit bytes))
  | appendMap {source : Text} {input fragment : Buffer} {writer after : OriginWriter} {pass : Pass}
      {realloc : Realloc} {offset length : Nat} {map : OriginMap}
      (before : OriginReachable source (.writing input writer pass))
      (other : OriginReachable ((input.text.drop offset).take length) (.committed map fragment))
      (done : writer.appendMap realloc (some map) offset = .ok after) :
      OriginReachable source (.writing input after (pass.append fragment offset))
  | commit {source : Text} {input : Buffer} {writer : OriginWriter} {pass : Pass} {outputLength : Nat}
      {map : OriginMap} (before : OriginReachable source (.writing input writer pass))
      (done : writer.commit outputLength = .ok map) :
      OriginReachable source (.committed map (pass.finish input))

/-! ## The history agrees with the maps -/

theorem copies_append {front back : CopyMap} {position origin : Nat} :
    Copies (front ++ back) position origin ↔
      Copies front position origin ∨
        front.length ≤ position ∧ Copies back (position - front.length) origin := by
  unfold Copies
  by_cases inside : position < front.length
  · rw [List.getElem?_append_left inside]
    simp [Nat.not_le.mpr inside]
  · rw [List.getElem?_append_right (Nat.le_of_not_lt inside)]
    simp [Nat.le_of_not_lt inside]

theorem copies_lt {copies : CopyMap} {position origin : Nat} (copied : Copies copies position origin) :
    position < copies.length := (List.getElem?_eq_some_iff.mp copied).1

theorem copies_range {offset length position origin : Nat} :
    Copies ((List.range length).map (fun position => some (offset + position))) position origin ↔
      position < length ∧ origin = offset + position := by
  unfold Copies
  by_cases inside : position < length
  · simp [inside, eq_comm]
  · rw [List.getElem?_eq_none (by simpa using inside)]
    simp [inside]

theorem copies_none {length position origin : Nat} :
    ¬ Copies (List.replicate length none) position origin := by
  unfold Copies
  rw [List.getElem?_replicate]
  split <;> simp

theorem copies_shift {copies : CopyMap} {offset position origin : Nat} :
    Copies (copies.map (Option.map (offset + ·))) position origin ↔
      ∃ inner, Copies copies position inner ∧ origin = offset + inner := by
  unfold Copies
  rw [List.getElem?_map]
  cases copies[position]? with
  | none => simp
  | some target => cases target <;> simp [eq_comm]

theorem copies_finish {pass : Pass} {input : Buffer} {position origin : Nat} :
    Copies (pass.finish input).copies position origin ↔
      ∃ middle, Copies pass.copies position middle ∧ Copies input.copies middle origin := by
  unfold Copies Pass.finish
  simp only [List.getElem?_map]
  cases pass.copies[position]? with
  | none => simp
  | some target =>
    cases target with
    | none => simp
    | some middle =>
      simp only [Option.map_some, Option.bind_some, Option.some.injEq, exists_eq_left']
      cases input.copies[middle]? with
      | none => simp
      | some inner => simp

/-- A committed map agrees with its buffer. -/
structure CommittedSound (source : Text) (map : OriginMap) (buffer : Buffer) : Prop where
  addressable : source.length ≤ sizeMax
  sound : map.Sound source.length
  textLength : map.outputLength = buffer.text.length
  copiesLength : buffer.copies.length = buffer.text.length
  copied : ∀ position target, Covers (toRuns map.runs) position target →
    Copies buffer.copies position target
  emitted : ∀ start length payload, Exact (toRuns map.runs) start length payload →
    buffer.emitted start length
  bytes : ∀ position target, Copies buffer.copies position target →
    buffer.text[position]? = source[target]?

/-- The writer of a pass agrees with the output so far. -/
structure WritingSound (source : Text) (input : Buffer) (map : OriginMap) (writer : OriginWriter)
    (pass : Pass) : Prop where
  reads : writer.map = some map
  inputSound : CommittedSound source map input
  sound : writer.Sound source.length
  textLength : writer.outputLength = pass.text.length
  copiesLength : pass.copies.length = pass.text.length
  copied : ∀ position target, Covers (toRuns writer.runs) position target →
    ∃ middle, Copies pass.copies position middle ∧ Copies input.copies middle target
  emitted : ∀ start length payload, Exact (toRuns writer.runs) start length payload →
    pass.Emitted input start length
  bytes : ∀ position target, Copies pass.copies position target →
    pass.text[position]? = input.text[target]?

/-- What an operation writes behind the output of a pass. -/
structure Pass.Extends (before after : Pass) (text : Text) (copies : CopyMap) : Prop where
  written : after.text = before.text ++ text
  traced : after.copies = before.copies ++ copies
  sameLength : copies.length = text.length
  emitted : ∀ start length, before.emitted start length → after.emitted start length

theorem WritingSound.step {source : Text} {input : Buffer} {map : OriginMap} {writer after : OriginWriter}
    {pass later : Pass} (sound : WritingSound source input map writer pass)
    {items : List (Run WholeOrigin)} (appends : Appends source.length writer after items)
    {text : Text} {copies : CopyMap} (extend : pass.Extends later text copies)
    (grown : after.outputLength = writer.outputLength + text.length)
    (copied : ∀ position target, Covers items position target →
      ∃ middle, Copies later.copies position middle ∧ Copies input.copies middle target)
    (emitted : ∀ start length payload, Exact items start length payload →
      later.Emitted input start length)
    (bytes : ∀ position target, Copies copies position target → text[position]? = input.text[target]?) :
    WritingSound source input map after later where
  reads := appends.map.trans sound.reads
  inputSound := sound.inputSound
  sound := appends.sound sound.sound
  textLength := by rw [grown, extend.written, List.length_append, sound.textLength]
  copiesLength := by
    rw [extend.traced, extend.written, List.length_append, List.length_append, sound.copiesLength,
      extend.sameLength]
  copied position target covers := by
    rw [appends.runs, pushAll_covers] at covers
    obtain earlier | added := covers
    · obtain ⟨middle, inPass, inInput⟩ := sound.copied position target earlier
      exact ⟨middle, extend.traced ▸ copies_append.mpr (.inl inPass), inInput⟩
    · exact copied position target added
  emitted start length payload exact := by
    rw [appends.runs, pushAll_exact] at exact
    obtain earlier | added := exact
    · obtain emitted | ⟨origin, emitted, copied⟩ := sound.emitted start length payload earlier
      · exact .inl (extend.emitted start length emitted)
      · exact .inr ⟨origin, emitted, fun offset less =>
          extend.traced ▸ copies_append.mpr (.inl (copied offset less))⟩
    · exact emitted start length payload added
  bytes position target copied := by
    rw [extend.traced, copies_append] at copied
    rw [extend.written]
    obtain earlier | ⟨behind, added⟩ := copied
    · have inside := copies_lt earlier
      rw [sound.copiesLength] at inside
      rw [List.getElem?_append_left inside]
      exact sound.bytes position target earlier
    · rw [sound.copiesLength] at behind added
      rw [List.getElem?_append_right behind]
      exact bytes _ target added

theorem originRuns_covers {origin : Origin} {start length position target : Nat} :
    ¬ Covers (originRuns origin start length) position target := by
  rintro ⟨run, member, source, image, -⟩
  unfold originRuns at member
  split at member
  next => cases member
  next =>
    split at member
    next => cases member
    next =>
      rw [List.mem_singleton.mp member] at image
      cases image
    next =>
      rw [List.mem_singleton.mp member] at image
      cases image

theorem originRuns_exact {origin : Origin} {start length start' length' : Nat} {payload : WholeOrigin}
    (exact : Exact (originRuns origin start length) start' length' payload) :
    start' = start ∧ length' = length := by
  unfold Exact originRuns at exact
  split at exact
  next => cases exact
  next =>
    split at exact
    next => cases exact
    next =>
      cases List.mem_singleton.mp exact
      exact ⟨rfl, rfl⟩
    next =>
      cases List.mem_singleton.mp exact
      exact ⟨rfl, rfl⟩

theorem WritingSound.copy {source : Text} {input : Buffer} {map : OriginMap} {writer after : OriginWriter}
    {pass : Pass} (sound : WritingSound source input map writer pass) {realloc : Realloc}
    {offset length : Nat} (done : writer.appendInput realloc offset length = .ok after) :
    WritingSound source input map after (pass.copy input offset length) := by
  obtain ⟨appends, grown, inside⟩ :=
    appendInput_ok sound.inputSound.addressable sound.sound sound.reads sound.inputSound.sound done
  rw [sound.inputSound.textLength] at inside
  have sliceLength : ((input.text.drop offset).take length).length = length := by
    rw [List.length_take, List.length_drop]
    omega
  have copies : ∀ position, position < length →
      Copies (pass.copy input offset length).copies (writer.outputLength + position) (offset + position) := by
    intro position less
    refine copies_append.mpr (.inr ?_)
    rw [sound.copiesLength, ← sound.textLength, Nat.add_sub_cancel_left]
    exact ⟨Nat.le_add_right _ _, copies_range.mpr ⟨less, rfl⟩⟩
  refine sound.step appends ⟨rfl, rfl, by simp [sliceLength], fun _ _ emitted => emitted⟩
    (by rw [grown, sliceLength]) ?_ ?_ ?_
  · intro position target covers
    rw [window_covers] at covers
    obtain ⟨behind, before, covers⟩ := covers
    refine ⟨_, ?_, sound.inputSound.copied _ _ covers⟩
    have := copies (position - writer.outputLength) (by omega)
    rwa [Nat.add_sub_cancel' behind] at this
  · intro start size payload exact
    rw [window_exact sound.inputSound.sound.wellFormed] at exact
    obtain ⟨behind, before, exact⟩ := exact
    refine .inr ⟨_, sound.inputSound.emitted _ _ _ exact, fun position less => ?_⟩
    have := copies (start - writer.outputLength + position) (by omega)
    rwa [show writer.outputLength + (start - writer.outputLength + position) = start + position by omega,
      ← Nat.add_assoc] at this
  · intro position target copied
    obtain ⟨less, rfl⟩ := copies_range.mp copied
    rw [List.getElem?_take_of_lt less, List.getElem?_drop]

theorem WritingSound.write {source : Text} {input : Buffer} {map : OriginMap} {writer after : OriginWriter}
    {pass : Pass} (sound : WritingSound source input map writer pass) {bytes : Text}
    (done : writer.appendUnknown bytes.length = .ok after) :
    WritingSound source input map after (pass.write bytes) := by
  obtain ⟨appends, grown⟩ := appendUnknown_ok sound.sound done
  refine sound.step appends ⟨rfl, rfl, by simp, fun _ _ emitted => emitted⟩ grown ?_ ?_ ?_
  · rintro position target ⟨run, member, -⟩
    cases member
  · intro start length payload exact
    cases exact
  · exact fun position target copied => absurd copied copies_none

theorem WritingSound.emit {source : Text} {input : Buffer} {map : OriginMap} {writer after : OriginWriter}
    {pass : Pass} (sound : WritingSound source input map writer pass) {bytes : Text} {origin : Origin}
    (appends : Appends source.length writer after (originRuns origin writer.outputLength bytes.length))
    (grown : after.outputLength = writer.outputLength + bytes.length) :
    WritingSound source input map after (pass.emit bytes) := by
  refine sound.step appends ⟨rfl, rfl, by simp, fun _ _ emitted => .inl emitted⟩ grown ?_ ?_ ?_
  · exact fun position target covers => absurd covers originRuns_covers
  · intro start length payload exact
    obtain ⟨rfl, rfl⟩ := originRuns_exact exact
    exact .inl (.inr ⟨sound.textLength, rfl⟩)
  · exact fun position target copied => absurd copied copies_none

theorem mapItems_covers {map : OriginMap} {offset base : Nat} {runs : List OriginRun}
    {position target : Nat} (covers : Covers (mapItems map offset base runs) position target) :
    ∃ run ∈ runs, Covers (mapRunItems map offset (base + run.outputOffset) run) position target := by
  obtain ⟨item, member, covers⟩ := covers
  obtain ⟨run, runMember, member⟩ := List.mem_flatMap.mp member
  exact ⟨run, runMember, item, member, covers⟩

theorem mapRunItems_covers {map : OriginMap} {offset base position target : Nat} {run : OriginRun}
    (covers : Covers (mapRunItems map offset base run) position target) :
    run.kind = .sourceLinear ∧ base ≤ position ∧ position < base + run.sourceLength ∧
      Covers (toRuns map.runs) (offset + run.sourceOffset + (position - base)) target := by
  unfold mapRunItems at covers
  split at covers
  next => exact absurd covers originRuns_covers
  next kind =>
    rw [window_covers, Nat.add_sub_cancel_left] at covers
    exact ⟨kind, covers⟩
  next => exact absurd covers originRuns_covers

theorem WritingSound.append {source : Text} {input fragment : Buffer} {map other : OriginMap}
    {writer after : OriginWriter} {pass : Pass} (sound : WritingSound source input map writer pass)
    {realloc : Realloc} {offset length : Nat}
    (otherSound : CommittedSound ((input.text.drop offset).take length) other fragment)
    (done : writer.appendMap realloc (some other) offset = .ok after) :
    WritingSound source input map after (pass.append fragment offset) := by
  obtain ⟨appends, grown⟩ :=
    appendMap_ok sound.inputSound.addressable sound.sound sound.reads sound.inputSound.sound done
  have copies : ∀ position target, Copies fragment.copies position target →
      Copies (pass.append fragment offset).copies (writer.outputLength + position) (offset + target) := by
    intro position target copied
    refine copies_append.mpr (.inr ?_)
    rw [sound.copiesLength, ← sound.textLength, Nat.add_sub_cancel_left]
    exact ⟨Nat.le_add_right _ _, copies_shift.mpr ⟨target, copied, rfl⟩⟩
  -- The bytes of a linear run of the fragment were copied from the input.
  have linear : ∀ run ∈ other.runs, run.kind = .sourceLinear → ∀ position < run.sourceLength,
      Copies (pass.append fragment offset).copies (writer.outputLength + run.outputOffset + position)
        (offset + run.sourceOffset + position) := by
    intro run member kind position less
    have sameLength := (otherSound.sound.valid run member).linear kind
    rw [Nat.add_assoc, Nat.add_assoc]
    refine copies _ _ (otherSound.copied _ _ ⟨run.toRun, mem_toRuns member, run.sourceOffset,
      toRun_linear kind, ?_⟩)
    simp only [toRun_start, toRun_stop]
    omega
  refine sound.step appends ⟨rfl, rfl, by simpa using otherSound.copiesLength,
    fun _ _ emitted => .inl emitted⟩ (by rw [grown, otherSound.textLength]) ?_ ?_ ?_
  · intro position target covers
    obtain ⟨run, member, covers⟩ := mapItems_covers covers
    obtain ⟨kind, behind, before, covers⟩ := mapRunItems_covers covers
    refine ⟨_, ?_, sound.inputSound.copied _ _ covers⟩
    have := linear run member kind (position - (writer.outputLength + run.outputOffset)) (by omega)
    rwa [Nat.add_sub_cancel' behind] at this
  · intro start size payload exact
    obtain ⟨run, member, exact⟩ := List.mem_flatMap.mp exact
    have whole : run.kind ≠ .sourceLinear → start = writer.outputLength + run.outputOffset →
        size = run.outputLength → (pass.append fragment offset).Emitted input start size := by
      rintro kind rfl rfl
      refine .inl (.inr ⟨run.outputOffset, by rw [sound.textLength], ?_⟩)
      refine otherSound.emitted _ _ (run.kind, run.sourceOffset, run.sourceLength) ?_
      have mapped := mem_toRuns member
      rwa [OriginRun.toRun, if_neg kind] at mapped
    unfold mapRunItems at exact
    split at exact
    next kind =>
      obtain ⟨sameStart, sameSize⟩ := originRuns_exact exact
      exact whole (by simp [kind]) sameStart sameSize
    next kind =>
      have clipped := (window_exact sound.inputSound.sound.wellFormed _ _ _ _ _ _).mp exact
      obtain ⟨behind, before, exact⟩ := clipped
      refine .inr ⟨_, sound.inputSound.emitted _ _ _ exact, fun position less => ?_⟩
      have := linear run member kind
        (start - (writer.outputLength + run.outputOffset) + position) (by omega)
      rwa [show writer.outputLength + run.outputOffset +
          (start - (writer.outputLength + run.outputOffset) + position) = start + position by omega,
        ← Nat.add_assoc] at this
    next kind =>
      obtain ⟨sameStart, sameSize⟩ := originRuns_exact exact
      exact whole (by simp [kind]) sameStart sameSize
  · intro position target shifted
    obtain ⟨inner, copied, rfl⟩ := copies_shift.mp shifted
    have inside := copies_lt copied
    rw [otherSound.copiesLength] at inside
    have byte := otherSound.bytes position inner copied
    have less : inner < length := by
      by_contra beyond
      rw [List.getElem?_take_eq_none (by omega), List.getElem?_eq_getElem inside] at byte
      cases byte
    rw [byte, List.getElem?_take_of_lt less, List.getElem?_drop]

/-- The invariant of a stage. -/
def OriginStage.Sound (source : Text) : OriginStage → Prop
  | .committed map buffer => CommittedSound source map buffer
  | .writing input writer pass => ∃ map, WritingSound source input map writer pass

theorem identity_sound {source : Text} {calloc malloc : Bool} {map : OriginMap}
    (fits : source.length ≤ sizeMax) (done : newIdentity calloc malloc source.length = .ok map) :
    CommittedSound source map (.source source) := by
  have copies : ∀ position target,
      Copies (Buffer.source source).copies position target ↔ position < source.length ∧ target = position := by
    intro position target
    have := @copies_range 0 source.length position target
    simpa [Buffer.source] using this
  have bytes : ∀ position target, Copies (Buffer.source source).copies position target →
      (Buffer.source source).text[position]? = source[target]? := by
    intro position target copied
    rw [((copies position target).mp copied).2]
    rfl
  unfold newIdentity at done
  split at done
  next => cases done
  next =>
    split at done
    next positive =>
      split at done
      next => cases done
      next =>
        cases done
        refine ⟨fits, ⟨⟨by simp [toRuns], by simpa [toRuns] using positive, by simp [toRuns]⟩,
          by simp [toRuns, Separated], ?_, fits⟩, rfl, by simp [Buffer.source], ?_, ?_, bytes⟩
        · simpa using ⟨fun _ => rfl, by simp, by simpa using fits⟩
        · rintro position target ⟨run, member, origin, image, lower, upper, rfl⟩
          cases List.mem_singleton.mp member
          cases image
          simp only [toRun_start, toRun_stop, Nat.zero_add] at *
          exact (copies _ _).mpr ⟨upper, by omega⟩
        · intro start length payload exact
          cases List.mem_singleton.mp exact
    next empty =>
      cases done
      refine ⟨fits, ⟨⟨List.Pairwise.nil, by simp [toRuns], by simp [toRuns]⟩, List.isChain_nil, by simp, fits⟩,
        rfl, by simp [Buffer.source], ?_, ?_, bytes⟩
      · rintro position target ⟨run, member, -⟩
        cases member
      · intro start length payload exact
        cases exact

theorem begin_sound {source : Text} {map : OriginMap} {buffer : Buffer} {inputLength : Nat}
    {writer : OriginWriter} (sound : CommittedSound source map buffer)
    (done : writerBegin (some map) inputLength = .ok writer) :
    WritingSound source buffer map writer .empty := by
  simp only [writerBegin] at done
  split at done
  next => cases done
  next =>
    cases done
    refine ⟨rfl, sound, ⟨⟨List.Pairwise.nil, by simp [toRuns], by simp [toRuns]⟩, List.isChain_nil, by simp,
      Nat.zero_le _⟩, rfl, rfl, ?_, ?_, ?_⟩
    · rintro position target ⟨run, member, -⟩
      cases member
    · intro start length payload exact
      cases exact
    · intro position target copied
      cases copied

theorem commit_sound {source : Text} {input : Buffer} {map : OriginMap} {writer : OriginWriter}
    {pass : Pass} (sound : WritingSound source input map writer pass) {outputLength : Nat}
    {committed : OriginMap} (done : writer.commit outputLength = .ok committed) :
    CommittedSound source committed (pass.finish input) := by
  unfold OriginWriter.commit at done
  split at done
  next =>
    split at done
    next => cases done
    next =>
      cases done
      refine ⟨sound.inputSound.addressable, sound.sound, sound.textLength, ?_, ?_, sound.emitted, ?_⟩
      · simpa [Pass.finish] using sound.copiesLength
      · exact fun position target covers => copies_finish.mpr (sound.copied position target covers)
      · intro position target copied
        obtain ⟨middle, inPass, inInput⟩ := copies_finish.mp copied
        exact (sound.bytes position middle inPass).trans (sound.inputSound.bytes middle target inInput)
  next => cases done

theorem OriginReachable.sound {source : Text} {stage : OriginStage}
    (reachable : OriginReachable source stage) : stage.Sound source := by
  induction reachable with
  | identity fits done => exact identity_sound fits done
  | begin before done inductionHypothesis => exact ⟨_, begin_sound inductionHypothesis done⟩
  | appendInput before done inductionHypothesis =>
    obtain ⟨map, sound⟩ := inductionHypothesis
    exact ⟨map, sound.copy done⟩
  | appendUnknown before done inductionHypothesis =>
    obtain ⟨map, sound⟩ := inductionHypothesis
    exact ⟨map, sound.write done⟩
  | appendGeneratedIdentifier before done inductionHypothesis =>
    obtain ⟨map, sound⟩ := inductionHypothesis
    obtain ⟨appends, grown⟩ := appendGeneratedIdentifier_ok sound.inputSound.addressable sound.sound done
    exact ⟨map, sound.emit appends grown⟩
  | appendSourceIdentifier before done inductionHypothesis =>
    obtain ⟨map, sound⟩ := inductionHypothesis
    obtain ⟨appends, grown⟩ := appendSourceIdentifier_ok sound.inputSound.addressable sound.sound
      sound.reads sound.inputSound.sound done
    exact ⟨map, sound.emit appends grown⟩
  | appendMap before other done inductionHypothesis otherHypothesis =>
    obtain ⟨map, sound⟩ := inductionHypothesis
    exact ⟨map, sound.append otherHypothesis done⟩
  | commit before done inductionHypothesis =>
    obtain ⟨map, sound⟩ := inductionHypothesis
    exact commit_sound sound done

/-! ## Composition of lookups -/

/-- Any writer operation that succeeds. -/
inductive OriginWriterStep (before after : OriginWriter) : Prop
  | appendInput (realloc : Realloc) (offset length : Nat)
      (done : before.appendInput realloc offset length = .ok after)
  | appendUnknown (length : Nat) (done : before.appendUnknown length = .ok after)
  | appendGeneratedIdentifier (realloc : Realloc) (length : Nat)
      (done : before.appendGeneratedIdentifier realloc length = .ok after)
  | appendSourceIdentifier (realloc : Realloc) (offset inputLength outputLength : Nat)
      (done : before.appendSourceIdentifier realloc offset inputLength outputLength = .ok after)
  | appendMap (realloc : Realloc) (map : OriginMap) (offset : Nat)
      (done : before.appendMap realloc (some map) offset = .ok after)

theorem OriginWriterStep.appends {limit : Nat} (addressable : limit ≤ sizeMax) {map : OriginMap}
    (mapSound : map.Sound limit) {before after : OriginWriter} (step : OriginWriterStep before after)
    (reads : before.map = some map) (sound : before.Sound limit) :
    ∃ items, Appends limit before after items := by
  cases step with
  | appendInput realloc offset length done =>
    exact ⟨_, (appendInput_ok addressable sound reads mapSound done).1⟩
  | appendUnknown length done => exact ⟨_, (appendUnknown_ok sound done).1⟩
  | appendGeneratedIdentifier realloc length done =>
    exact ⟨_, (appendGeneratedIdentifier_ok addressable sound done).1⟩
  | appendSourceIdentifier realloc offset inputLength outputLength done =>
    exact ⟨_, (appendSourceIdentifier_ok addressable sound reads mapSound done).1⟩
  | appendMap realloc other offset done =>
    exact ⟨_, (appendMap_ok addressable sound reads mapSound done).1⟩

theorem steps_append {limit : Nat} (addressable : limit ≤ sizeMax) {map : OriginMap}
    (mapSound : map.Sound limit) {before after : OriginWriter} (reads : before.map = some map)
    (sound : before.Sound limit) (steps : Relation.ReflTransGen OriginWriterStep before after) :
    ∃ items, Appends limit before after items := by
  induction steps with
  | refl => exact ⟨[], appends_nothing sound le_rfl sound.addressable⟩
  | tail _ step inductionHypothesis =>
    obtain ⟨first, appends⟩ := inductionHypothesis
    obtain ⟨second, more⟩ :=
      step.appends addressable mapSound (appends.map.trans reads) (appends.sound sound)
    exact ⟨first ++ second, appends.trans more⟩

/-- The runs behind one appended run lie over its output range. -/
theorem mapRunItems_within {limit : Nat} {map : OriginMap} (mapSound : map.Sound limit) {otherLimit : Nat} {run : OriginRun}
    (valid : run.Valid otherLimit)
    (offset base : Nat) :
    WellFormed (base + run.outputLength) (mapRunItems map offset base run) ∧
      ∀ item ∈ mapRunItems map offset base run, base ≤ item.start := by
  unfold mapRunItems
  split
  next kind => exact originRuns_wellFormed _ _ _
  next kind =>
    have wellFormed := window_wellFormed mapSound.wellFormed (offset + run.sourceOffset)
      (offset + run.sourceOffset + run.sourceLength) base
    rw [Nat.add_sub_cancel_left, valid.linear kind] at wellFormed
    rw [valid.linear kind]
    exact ⟨wellFormed, window_start⟩
  next kind => exact originRuns_wellFormed _ _ _

/-- Two maps that describe a range alike answer it alike. -/
theorem lookup_congr {leftLimit rightLimit : Nat} (leftAddressable : leftLimit ≤ sizeMax)
    (rightAddressable : rightLimit ≤ sizeMax) {left right : OriginMap} (leftSound : left.Sound leftLimit)
    (rightSound : right.Sound rightLimit) {start start' length : Nat}
    (alike : ∀ image, Answers (toRuns left.runs) start length image ↔
      Answers (toRuns right.runs) start' length image) :
    originLookup (some left) start length = originLookup (some right) start' length := by
  by_cases known : originLookup (some left) start length = .unknown
  · by_contra differ
    rw [known] at differ
    obtain ⟨positive, image, answers, -⟩ := answers_of_lookup rightAddressable rightSound (Ne.symm differ)
    have := lookup_of_answers leftAddressable leftSound positive ((alike image).mpr answers)
    have again := lookup_of_answers rightAddressable rightSound positive answers
    exact differ (known.symm.trans (this.trans again.symm))
  · obtain ⟨positive, image, answers, -⟩ := answers_of_lookup leftAddressable leftSound known
    rw [lookup_of_answers leftAddressable leftSound positive answers,
      lookup_of_answers rightAddressable rightSound positive ((alike image).mp answers)]

theorem toRun_injective {limit : Nat} {left right : OriginRun} (leftValid : left.Valid limit)
    (rightValid : right.Valid limit) (same : left.toRun = right.toRun) : left = right := by
  have start : left.outputOffset = right.outputOffset := congrArg Run.start same
  have length : left.outputLength = right.outputLength := congrArg Run.length same
  have image := congrArg Run.image same
  by_cases linear : left.kind = .sourceLinear
  · rw [toRun_linear linear, eq_comm] at image
    obtain ⟨rightLinear, source⟩ := kind_of_image_linear image
    have leftLength := leftValid.linear linear
    have rightLength := rightValid.linear rightLinear
    cases left
    cases right
    simp_all
  · rw [toRun_atomic linear, eq_comm] at image
    obtain ⟨-, payload⟩ := kind_of_image_atomic image
    cases left
    cases right
    simp_all

/-- What appending a map pushes over the output range of one appended run is pushed for this run. -/
theorem mapItems_local {limit otherLimit : Nat} {map other : OriginMap} (mapSound : map.Sound limit)
    (otherSound : other.Sound otherLimit) {offset base : Nat} {run : OriginRun}
    (member : run ∈ other.runs) {item : Run WholeOrigin}
    (pushed : item ∈ mapItems map offset base other.runs) (position : Nat)
    (inItem : item.start ≤ position ∧ position < item.stop)
    (inRun : base + run.outputOffset ≤ position ∧
      position < base + run.outputOffset + run.outputLength) :
    item ∈ mapRunItems map offset (base + run.outputOffset) run := by
  obtain ⟨owner, ownerMember, owned⟩ := List.mem_flatMap.mp pushed
  have ownerValid := otherSound.valid owner ownerMember
  obtain ⟨within, behind⟩ := mapRunItems_within mapSound ownerValid offset (base + owner.outputOffset)
  have upper := within.bounded item owned
  have lower := behind item owned
  have shared := otherSound.wellFormed.eq_of_shared (mem_toRuns ownerMember) (mem_toRuns member)
    (position - base) (by simp only [toRun_start, toRun_stop]; omega)
    (by simp only [toRun_start, toRun_stop]; omega)
  obtain rfl := toRun_injective ownerValid (otherSound.valid run member) shared
  exact owned

/-- After appending a map and any further operations, a range inside one appended run is described
by what was pushed for this run. -/
theorem appended_answers {limit otherLimit : Nat} {map other : OriginMap} (mapSound : map.Sound limit)
    (otherSound : other.Sound otherLimit) {writer after final : OriginWriter} {offset : Nat}
    {items : List (Run WholeOrigin)} (sound : writer.Sound limit)
    (appends : Appends limit writer after (mapItems map offset writer.outputLength other.runs))
    (grown : after.outputLength = writer.outputLength + other.outputLength)
    (later : Appends limit after final items) {run : OriginRun} (member : run ∈ other.runs)
    {start length : Nat} (positive : 0 < length) (lower : run.outputOffset ≤ start)
    (upper : start + length ≤ run.outputOffset + run.outputLength) (image : Image WholeOrigin) :
    Answers (toRuns final.runs) (writer.outputLength + start) length image ↔
      Answers (mapRunItems map offset (writer.outputLength + run.outputOffset) run)
        (writer.outputLength + start) length image := by
  have bounded := otherSound.wellFormed.bounded run.toRun (mem_toRuns member)
  simp only [toRun_stop] at bounded
  have owned : ∀ item ∈ mapRunItems map offset (writer.outputLength + run.outputOffset) run,
      item ∈ mapItems map offset writer.outputLength other.runs := fun item pushed =>
    List.mem_flatMap.mpr ⟨run, member, pushed⟩
  cases image with
  | linear source =>
    refine forall₂_congr fun position less => ?_
    rw [later.runs, pushAll_covers, appends.runs, pushAll_covers]
    constructor
    · rintro ((⟨item, stored, covers⟩ | ⟨item, pushed, covers⟩) | ⟨item, added, covers⟩)
      · have := sound.wellFormed.bounded item stored
        have := covers.inside
        omega
      · exact ⟨item, mapItems_local mapSound otherSound member pushed _ covers.inside (by omega), covers⟩
      · have := later.behind item added
        have := covers.inside
        omega
    · rintro ⟨item, pushed, covers⟩
      exact .inl (.inr ⟨item, owned item pushed, covers⟩)
  | atomic payload =>
    change Exact _ _ _ _ ↔ Exact _ _ _ _
    rw [later.runs, pushAll_exact, appends.runs, pushAll_exact]
    constructor
    · rintro ((stored | pushed) | added)
      · have := sound.wellFormed.bounded _ stored
        simp only [Run.stop] at this
        omega
      · exact mapItems_local mapSound otherSound member pushed (writer.outputLength + start)
          ⟨le_rfl, by simp only [Run.stop]; omega⟩ (by omega)
      · have := later.behind _ added
        simp only at this
        omega
    · exact fun pushed => .inl (.inr (owned _ pushed))

/-- A lookup's answer is determined by its kind unless it names a source range. -/
theorem lookup_canonical {limit : Nat} (addressable : limit ≤ sizeMax) {map : OriginMap}
    (sound : map.Sound limit) (offset length : Nat) :
    (originLookup (some map) offset length).kind = .source ∨
      originLookup (some map) offset length =
        ⟨(originLookup (some map) offset length).kind, 0, 0⟩ := by
  by_cases known : originLookup (some map) offset length = .unknown
  · rw [known]
    exact .inr rfl
  · obtain ⟨positive, image, answers, -⟩ := answers_of_lookup addressable sound known
    rw [lookup_of_answers addressable sound positive answers]
    cases image with
    | linear source => exact .inl rfl
    | atomic payload =>
      unfold imageOrigin
      dsimp only
      split
      next => exact .inr rfl
      next => exact .inl rfl

theorem lookup_of_originRuns {limit : Nat} (addressable : limit ≤ sizeMax) {map : OriginMap}
    (sound : map.Sound limit) {origin : Origin}
    (canonical : origin.kind = .source ∨ origin = ⟨origin.kind, 0, 0⟩) {start length : Nat}
    (positive : 0 < length)
    (described : ∀ image, Answers (toRuns map.runs) start length image ↔
      Answers (originRuns origin start length) start length image) :
    originLookup (some map) start length = origin := by
  obtain ⟨kind, source, sourceLength⟩ := origin
  unfold originRuns at described
  simp only [if_neg positive.ne'] at described
  cases kind with
  | unknown =>
    obtain ⟨rfl, rfl⟩ : source = 0 ∧ sourceLength = 0 := by simpa using canonical
    by_contra known
    obtain ⟨-, image, answers, -⟩ := answers_of_lookup addressable sound known
    have nothing := (described image).mp answers
    cases image with
    | linear target =>
      obtain ⟨run, member, -⟩ := nothing 0 positive
      cases member
    | atomic payload => cases nothing
  | source =>
    exact lookup_of_answers addressable sound positive
      ((described (.atomic (.sourceIdentifier, source, sourceLength))).mpr (List.mem_singleton.mpr rfl))
  | generated =>
    obtain ⟨rfl, rfl⟩ : source = 0 ∧ sourceLength = 0 := by simpa using canonical
    exact lookup_of_answers addressable sound positive
      ((described (.atomic (.generated, 0, 0))).mpr (List.mem_singleton.mpr rfl))

/-- Looking a range up in an appended map and then in the map of the writer is looking it up in the
map that is committed later. -/
theorem appended_lookup {limit otherLimit : Nat} (addressable : limit ≤ sizeMax)
    (otherAddressable : otherLimit ≤ sizeMax) {map other committed : OriginMap}
    (mapSound : map.Sound limit) (otherSound : other.Sound otherLimit)
    {writer after final : OriginWriter} {offset : Nat} {items : List (Run WholeOrigin)}
    (sound : writer.Sound limit)
    (appends : Appends limit writer after (mapItems map offset writer.outputLength other.runs))
    (grown : after.outputLength = writer.outputLength + other.outputLength)
    (later : Appends limit after final items) (committedSound : committed.Sound limit)
    (runs : committed.runs = final.runs) {start length : Nat}
    (known : originLookup (some other) start length ≠ .unknown) :
    originLookup (some committed) (writer.outputLength + start) length =
      match (originLookup (some other) start length).kind with
      | .source => originLookup (some map)
          (offset + (originLookup (some other) start length).sourceOffset)
          (originLookup (some other) start length).sourceLength
      | _ => originLookup (some other) start length := by
  obtain ⟨positive, image, answers, -⟩ := answers_of_lookup otherAddressable otherSound known
  rw [lookup_of_answers otherAddressable otherSound positive answers]
  obtain ⟨run, member, lower, upper, what⟩ := otherSound.exists_run positive answers
  have described := appended_answers mapSound otherSound sound appends grown later member positive
    lower upper
  rw [← runs] at described
  obtain ⟨linear, rfl⟩ | ⟨atomic, rfl, rfl, rfl⟩ := what
  · refine lookup_congr addressable addressable committedSound mapSound fun image => ?_
    have sameLength := (otherSound.valid run member).linear linear
    rw [described, mapRunItems, linear]
    dsimp only [imageOrigin]
    cases image with
    | linear source =>
      refine forall₂_congr fun position less => ?_
      rw [window_covers, show offset + run.sourceOffset + (writer.outputLength + start + position -
        (writer.outputLength + run.outputOffset)) =
          offset + (run.sourceOffset + (start - run.outputOffset)) + position by omega]
      exact ⟨fun covers => covers.2.2, fun covers => ⟨by omega, by omega, covers⟩⟩
    | atomic payload =>
      change Exact _ _ _ _ ↔ Exact _ _ _ _
      rw [window_exact mapSound.wellFormed, show offset + run.sourceOffset + (writer.outputLength + start -
        (writer.outputLength + run.outputOffset)) =
          offset + (run.sourceOffset + (start - run.outputOffset)) by omega]
      exact ⟨fun exact => exact.2.2, fun exact => ⟨by omega, by omega, exact⟩⟩
  · rw [toRun_atomic atomic]
    unfold mapRunItems at described
    cases kind : run.kind with
    | sourceLinear => exact absurd kind atomic
    | sourceIdentifier =>
      simp only [kind] at described
      exact lookup_of_originRuns addressable committedSound (lookup_canonical addressable mapSound _ _)
        positive described
    | generated =>
      simp only [kind] at described
      exact lookup_of_originRuns addressable committedSound (.inr rfl) positive described

/-! ## The provenance theorem -/

/-- The run list of an output of `outputLength` bytes is ordered. -/
structure OriginRunsOrdered (outputLength : Nat) (runs : List OriginRun) : Prop where
  sorted : runs.Pairwise (fun left right => left.outputOffset < right.outputOffset)
  disjoint : runs.Pairwise (fun left right => left.outputOffset + left.outputLength ≤ right.outputOffset)
  contained : ∀ run ∈ runs, run.outputOffset + run.outputLength ≤ outputLength

theorem RunsSound.ordered {limit outputLength : Nat} {runs : List OriginRun}
    (sound : RunsSound limit outputLength runs) : OriginRunsOrdered outputLength runs where
  sorted := by
    refine sound.sorted.imp_of_mem ?_
    intro left right member _ before
    have := sound.positive member
    simp only [toRun_stop, toRun_start] at before
    omega
  disjoint := sound.sorted
  contained run member := sound.wellFormed.bounded run.toRun (mem_toRuns member)

/-- A linear answer names bytes that were copied, one by one. -/
theorem CommittedSound.linear_bytes {source : Text} {map : OriginMap} {buffer : Buffer}
    (sound : CommittedSound source map buffer) {offset length origin : Nat}
    (answers : Answers (toRuns map.runs) offset length (.linear origin)) :
    (buffer.text.drop offset).take length = (source.drop origin).take length := by
  refine List.ext_getElem? fun position => ?_
  by_cases less : position < length
  · rw [List.getElem?_take_of_lt less, List.getElem?_take_of_lt less, List.getElem?_drop,
      List.getElem?_drop]
    exact sound.bytes _ _ (sound.copied _ _ (answers position less))
  · rw [List.getElem?_take_eq_none (by omega), List.getElem?_take_eq_none (by omega)]

theorem identifier_origins_sound (source : Text) :
    (∀ input writer pass, OriginReachable source (.writing input writer pass) →
      OriginRunsOrdered writer.outputLength writer.runs) ∧
    (∀ map buffer, OriginReachable source (.committed map buffer) →
      OriginRunsOrdered map.outputLength map.runs ∧
      (∀ offset length, (originLookup (some map) offset length).kind = .source →
        map.kindAt offset = some .sourceLinear →
          (originLookup (some map) offset length).sourceLength = length ∧
          (buffer.text.drop offset).take length =
            (source.drop (originLookup (some map) offset length).sourceOffset).take length) ∧
      (∀ offset length, (originLookup (some map) offset length).kind = .generated ∨
          ((originLookup (some map) offset length).kind = .source ∧
            map.kindAt offset ≠ some .sourceLinear) →
        buffer.emitted offset length)) ∧
    (∀ input writer pass map fragment other offset size realloc after final outputLength committed,
      OriginReachable source (.writing input writer pass) → writer.map = some map →
      OriginReachable ((input.text.drop offset).take size) (.committed other fragment) →
      writer.appendMap realloc (some other) offset = .ok after →
      Relation.ReflTransGen OriginWriterStep after final → final.commit outputLength = .ok committed →
      ∀ start length, originLookup (some other) start length ≠ .unknown →
        originLookup (some committed) (writer.outputLength + start) length =
          match (originLookup (some other) start length).kind with
          | .source => originLookup (some map)
              (offset + (originLookup (some other) start length).sourceOffset)
              (originLookup (some other) start length).sourceLength
          | _ => originLookup (some other) start length) := by
  refine ⟨?_, ?_, ?_⟩
  -- while a pass writes, its runs are ordered
  · intro input writer pass reachable
    obtain ⟨map, sound⟩ := reachable.sound
    exact sound.sound.ordered
  -- a committed map: source bytes for the linear runs, emitted ranges for the others
  · intro map buffer reachable
    have sound : CommittedSound source map buffer := reachable.sound
    have addressable := sound.addressable
    refine ⟨sound.sound.ordered, ?_, ?_⟩
    · intro offset length isSource linearRun
      have known : originLookup (some map) offset length ≠ .unknown := fun unknown => by
        rw [unknown] at isSource
        cases isSource
      obtain ⟨positive, image, answers, linear⟩ := answers_of_lookup addressable sound.sound known
      obtain ⟨origin, rfl⟩ := linear.mpr linearRun
      rw [lookup_of_answers addressable sound.sound positive answers]
      exact ⟨rfl, sound.linear_bytes answers⟩
    · intro offset length identifier
      have known : originLookup (some map) offset length ≠ .unknown := fun unknown => by
        rw [unknown] at identifier
        simp [Origin.unknown] at identifier
      obtain ⟨positive, image, answers, linear⟩ := answers_of_lookup addressable sound.sound known
      cases image with
      | linear origin =>
        rw [lookup_of_answers addressable sound.sound positive answers] at identifier
        have := linear.mp ⟨origin, rfl⟩
        simp [imageOrigin, this] at identifier
      | atomic payload => exact sound.emitted offset length payload answers
  -- an appended map answers as before, through the map of the pass
  · intro input writer pass map fragment other offset size realloc after final outputLength committed
      reachable reads fragmentReachable appended steps commit start length known
    obtain ⟨read, sound⟩ := reachable.sound
    obtain rfl : map = read := Option.some.inj (reads.symm.trans sound.reads)
    have otherSound : CommittedSound _ other fragment := fragmentReachable.sound
    have addressable := sound.inputSound.addressable
    obtain ⟨appends, grown⟩ :=
      appendMap_ok addressable sound.sound reads sound.inputSound.sound appended
    obtain ⟨items, later⟩ := steps_append addressable sound.inputSound.sound
      (appends.map.trans reads) (appends.sound sound.sound) steps
    obtain rfl : committed = ⟨final.runs, final.outputLength⟩ := by
      unfold OriginWriter.commit at commit
      split at commit
      next =>
        split at commit
        next => cases commit
        next => exact (Except.ok.inj commit).symm
      next => cases commit
    have committedSound : OriginMap.Sound source.length ⟨final.runs, final.outputLength⟩ :=
      later.sound (appends.sound sound.sound)
    exact appended_lookup addressable otherSound.addressable sound.inputSound.sound otherSound.sound
      sound.sound appends grown later committedSound rfl known

/-- A pass replaces the source by one generated identifier; a second pass appends a fragment that
copies it, and its lookup still finds the generated range. -/
theorem identifier_origins_sound_fragment :
    ∃ map buffer, OriginReachable (ascii "ab") (.committed map buffer) ∧
      originLookup (some map) 0 1 = ⟨.generated, 0, 0⟩ ∧ buffer.emitted 0 1 := by
  have identity : OriginReachable (ascii "ab") _ :=
    .identity (by decide) (show newIdentity true true 2 = .ok ⟨[⟨.sourceLinear, 0, 2, 0, 2⟩], 2⟩ from rfl)
  have first : OriginReachable (ascii "ab") _ := .begin identity
    (show writerBegin _ 2 = .ok ⟨some ⟨[⟨.sourceLinear, 0, 2, 0, 2⟩], 2⟩, [], 0, 0, by simp⟩ from rfl)
  have stores : ∀ map run, OriginWriter.storeRun (fun _ => true) ⟨some map, [], 0, 0, by simp⟩ run =
      .ok ⟨some map, [run], 8, 0, by simp⟩ := by
    intro map run
    unfold OriginWriter.storeRun
    simp only [List.length_nil, @reserveRuns_first (fun _ => true) rfl]
    rfl
  have generated : OriginReachable (ascii "ab") _ := @OriginReachable.appendGeneratedIdentifier _ _ _
    ⟨some ⟨[⟨.sourceLinear, 0, 2, 0, 2⟩], 2⟩, [⟨.generated, 0, 1, 0, 0⟩], 8, 1, by simp⟩ _
    (fun _ => true) (ascii "X") first (by
      have one : (ascii "X").length = 1 := rfl
      simp [one, OriginWriter.appendGeneratedIdentifier, originSizeAdd, sizeMax,
        OriginWriter.appendIdentifierRun, OriginWriter.appendRun, stores])
  have renamed : OriginReachable (ascii "ab") _ := .commit generated
    (show OriginWriter.commit _ 1 = .ok ⟨[⟨.generated, 0, 1, 0, 0⟩], 1⟩ from rfl)
  have second : OriginReachable (ascii "ab") _ := .begin renamed
    (show writerBegin _ 1 = .ok ⟨some ⟨[⟨.generated, 0, 1, 0, 0⟩], 1⟩, [], 0, 0, by simp⟩ from rfl)
  have fragment : OriginReachable ((ascii "X").take 1) _ :=
    .identity (by decide) (show newIdentity true true 1 = .ok ⟨[⟨.sourceLinear, 0, 1, 0, 1⟩], 1⟩ from rfl)
  have appended : OriginWriter.appendMap (fun _ => true)
      ⟨some ⟨[⟨.generated, 0, 1, 0, 0⟩], 1⟩, [], 0, 0, by simp⟩
      (some ⟨[⟨.sourceLinear, 0, 1, 0, 1⟩], 1⟩) 0 =
        .ok ⟨some ⟨[⟨.generated, 0, 1, 0, 0⟩], 1⟩, [⟨.generated, 0, 1, 0, 0⟩], 8, 1, by simp⟩ := by
    simp [OriginWriter.appendMap, OriginWriter.appendMapRuns, OriginWriter.appendMapRun,
      OriginWriter.appendUnknown, OriginWriter.appendInput, originSizeAdd, sizeMax, firstRun, firstRunFrom,
      runEndsBy, OriginWriter.appendInputRuns, OriginWriter.appendRun, inputRunPart, stores]
  have whole : originLookup (some ⟨[⟨.sourceLinear, 0, 1, 0, 1⟩], 1⟩) 0 1 = ⟨.source, 0, 1⟩ := by
    simp [originLookup, originSizeAdd, sizeMax, firstRun, firstRunFrom, runEndsBy, lookupLinear]
  have inner : originLookup (some ⟨[⟨.generated, 0, 1, 0, 0⟩], 1⟩) 0 1 = ⟨.generated, 0, 0⟩ := by
    simp [originLookup, originSizeAdd, sizeMax, firstRun, firstRunFrom, runEndsBy, lookupExact]
  have committed : OriginReachable (ascii "ab") _ := .commit (.appendMap second fragment appended)
    (show OriginWriter.commit _ 1 = .ok ⟨[⟨.generated, 0, 1, 0, 0⟩], 1⟩ from rfl)
  obtain ⟨-, committedSound, composed⟩ := identifier_origins_sound (ascii "ab")
  have answer := composed _ _ _ _ _ _ _ _ _ _ _ 1 _ second rfl fragment appended .refl rfl 0 1
    (by rw [whole]; decide)
  rw [whole] at answer
  have answer := answer.trans inner
  exact ⟨_, _, committed, answer, (committedSound _ _ committed).2.2 0 1 (.inl (by rw [answer]))⟩

end SqlParser.Core
