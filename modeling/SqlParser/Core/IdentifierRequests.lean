import SqlParser.Core.IdentifierSearch

/-! # The identifiers that an audit hands out

The deparser asks the resolver for the source spelling of one identifier after another. Under an
audit a request that cannot be met fails the audit, and where the tokens that were handed out are
marked, each is handed out once.
-/

namespace SqlParser.Core.Source

/-- The kinds of places at which `sqlparser_resolve_identifier` is asked for an identifier; a location below zero is `none`. -/
inductive Place where
  | windowName (location : Option Nat)
  | accessMethod
  | forward (location : Option Nat)
  | component (location : Option Nat) (index : Nat)
  deriving DecidableEq, Repr

structure Request where
  identifier : Text
  place : Place
  deriving DecidableEq, Repr

/-- The members of `sqlparser_identifier_resolver_t` that a request changes; `consumed` is NULL, or has one
entry for each byte of the text. -/
structure ResolverState where
  cursor : Nat
  consumed : Option (List Bool)
  auditFailed : Bool
  deriving DecidableEq, Repr

/-- A token that is handed out, with its spelling. -/
structure Grant where
  start : Nat
  stop : Nat
  spelling : Text
  deriving DecidableEq, Repr

section resolving

variable (resolver : Resolver)

/-- The state in which a deparser starts, with or without marks for the tokens handed out. -/
def ResolverState.initial (cursor : Nat) (marks : Bool) : ResolverState :=
  ⟨cursor, if marks then some (List.replicate resolver.sql.length false) else none, false⟩

/-! ## The searches -/

/-- A search that looks at one token. -/
def Sighting.search (token : Text) : Sighting → Search
  | .absent => ⟨none, false⟩
  | .unproven => ⟨none, true⟩
  | .seen after spelling => ⟨some ⟨token, after, spelling⟩, false⟩

/-- `sqlparser_resolve_qualified_identifier` -/
def resolveQualified (identifier : Text) : Nat → Text → Search
  | 0, rest => (identifierAt resolver rest identifier).search rest
  | index + 1, rest =>
    let after := sourceIdentifierEnd resolver.lexer rest
    if after = rest then ⟨none, false⟩
    else
      match skipTrivia resolver.lexer after with
      | dot :: more =>
        if dot = Byte.dot then resolveQualified identifier index (skipTrivia resolver.lexer more) else ⟨none, false⟩
      | [] => ⟨none, false⟩

/-- A word of the text, and what stands behind it. -/
def readsWord (word rest : Text) : Bool :=
  (tokenOf rest (identifierEnd rest)).map toLower = word

/-- One turn of the loop of `sqlparser_resolve_window_name` at a token: where it goes on. -/
def windowNext (token : Text) : Text :=
  if sourceIdentifierEnd resolver.lexer token = token then token.drop 1 else sourceIdentifierEnd resolver.lexer token

/-- Whether `AS` and the definition of a window, which is what is left at the location, stand behind a name. -/
def namesWindow (definition after : Text) : Bool :=
  readsWord (ascii "as") (skipTrivia resolver.lexer after) &&
    skipTrivia resolver.lexer (identifierEnd (skipTrivia resolver.lexer after)) = definition

theorem windowNext_shorter {token : Text} (present : token ≠ []) : (windowNext resolver token).length < token.length := by
  unfold windowNext
  split
  · rw [List.length_drop]
    have := List.length_pos_of_ne_nil present
    omega
  next moved =>
    have suffix := sourceIdentifierEnd_suffix resolver.lexer token
    exact Nat.lt_of_le_of_ne suffix.length_le fun same => moved (suffix.eq_of_length same)

theorem windowNext_suffix (token : Text) : windowNext resolver token <:+ token := by
  unfold windowNext
  split
  · exact List.drop_suffix 1 token
  · exact sourceIdentifierEnd_suffix resolver.lexer token

/-- The loop of `sqlparser_resolve_window_name` up to the definition of the window. -/
def resolveWindow (identifier definition rest : Text) : Search :=
  if definition.length < (skipTrivia resolver.lexer rest).length then
    let token := skipTrivia resolver.lexer rest
    let own := (identifierAt resolver token identifier).search token
    if own.result.any fun candidate => namesWindow resolver definition candidate.after then own
    else
      let later := resolveWindow identifier definition (windowNext resolver token)
      ⟨later.result, own.unproven || later.unproven⟩
  else ⟨none, false⟩
termination_by rest.length
decreasing_by
  refine Nat.lt_of_lt_of_le (windowNext_shorter resolver ?_) (skipTrivia_suffix resolver.lexer rest).length_le
  exact List.ne_nil_of_length_pos (Nat.lt_of_le_of_lt (Nat.zero_le _) (by assumption))

/-- `sqlparser_resolve_index_access_method`, with the flag for an explicit `USING`. -/
def resolveAccessMethod (identifier rest : Text) : Search × Bool :=
  let keyword := skipTrivia resolver.lexer rest
  if readsWord (ascii "using") keyword then
    let token := skipTrivia resolver.lexer (identifierEnd keyword)
    ((identifierAt resolver token identifier).search token, true)
  else (⟨none, false⟩, false)

/-! ## A request -/

/-- `sqlparser_consume_identifier`: nothing where the token was handed out before. -/
def ResolverState.consume (state : ResolverState) (start stop : Nat) : Option ResolverState :=
  match resolver.auditIdentifiers, state.consumed with
  | true, some marks =>
    -- the token was handed out before
    if marks.getD start false then none
    else some { state with consumed := some (marks.set start true), cursor := max state.cursor stop }
  | _, _ => some { state with cursor := max state.cursor stop }

/-- A state behind a call, and the token that was handed out, if any. -/
abbrev Answered : Type := ResolverState × Option Grant

/-- A candidate is handed out, unless it was before. -/
def ResolverState.hand (state : ResolverState) (candidate : Candidate) : Answered :=
  let start := offsetOf resolver.sql candidate.token
  let stop := offsetOf resolver.sql candidate.after
  match state.consume resolver start stop with
  | some next => (next, some ⟨start, stop, candidate.spelling⟩)
  | none => (state, none)

/-- What a search leaves and hands out. -/
def ResolverState.grant (state : ResolverState) (search : Search) : Answered :=
  -- a token that its origin does not bear out fails the audit, also where a later one is found
  let looked := { state with auditFailed := state.auditFailed || search.unproven }
  match search.result with
  | some candidate => looked.hand resolver candidate
  | none => (looked, none)

/-- `sqlparser_resolve_generated_identifier_after_source_gap` -/
def ResolverState.handAfterGap (state : ResolverState) (identifier : Text) : Answered :=
  if resolver.generation = 0 ∨ resolver.auditIdentifiers = false ∨ resolver.origins = none then (state, none)
  else
    -- the copy that searches is under no audit, so it passes over the names in between
    match (searchForward { resolver with auditIdentifiers := false } identifier (resolver.sql.drop state.cursor)).result with
    | none => (state, none)
    | some candidate =>
      let start := offsetOf resolver.sql candidate.token
      if (originLookup resolver.origins start (offsetOf resolver.sql candidate.after - start)).kind = .generated then
        state.hand resolver candidate
      else (state, none)

/-- The branch of `sqlparser_resolve_identifier` where the locations are not those of the text: without an audit a search
that finds nothing is made again from the beginning up to the cursor. -/
def ResolverState.handUnlocated (state : ResolverState) (identifier : Text) : Answered :=
  match state.grant resolver (searchForward resolver identifier (resolver.sql.drop state.cursor)) with
  | (next, some grant) => (next, some grant)
  | (next, none) =>
    if state.cursor = 0 ∨ resolver.auditIdentifiers then (next, none)
    else
      -- the copy that searches ends at the cursor and starts with a cursor of its own
      let front := { resolver with sql := resolver.sql.take state.cursor }
      match (searchForward front identifier front.sql).result with
      | some candidate =>
        ({ next with cursor := offsetOf front.sql candidate.after },
          some ⟨offsetOf front.sql candidate.token, offsetOf front.sql candidate.after, candidate.spelling⟩)
      | none => (next, none)

/-- A search from the cursor on, or from a location behind it. -/
def ResolverState.handForward (state : ResolverState) (identifier : Text) (location : Option Nat) : Answered :=
  if location.getD state.cursor > resolver.sql.length then (state, none)
  else
    match state.grant resolver (searchForward resolver identifier
        (resolver.sql.drop (max (location.getD state.cursor) state.cursor))) with
    | (next, some grant) => (next, some grant)
    | (next, none) =>
      -- only a search that did not fail the audit itself is made again
      if location = none ∧ next.auditFailed = state.auditFailed then next.handAfterGap resolver identifier else (next, none)

/-- The branches of `sqlparser_resolve_identifier`, each with whether its failure fails an audit. -/
def ResolverState.attempt (state : ResolverState) (request : Request) : Answered × Bool :=
  match request.place with
  | .windowName none => ((state, none), true)
  | .windowName (some location) =>
    (if !resolver.locationsMatch then
        state.grant resolver (searchForward resolver request.identifier (resolver.sql.drop state.cursor))
      else if location < resolver.sql.length then
        state.grant resolver (resolveWindow resolver request.identifier (resolver.sql.drop location)
          (resolver.sql.drop state.cursor))
      else (state, none), true)
  | .accessMethod =>
    let (search, explicit) := resolveAccessMethod resolver request.identifier (resolver.sql.drop state.cursor)
    (state.grant resolver search, explicit || request.identifier ≠ ascii "btree")
  | .forward location =>
    (if !resolver.locationsMatch then state.handUnlocated resolver request.identifier
      else state.handForward resolver request.identifier location, true)
  | .component location index =>
    (if !resolver.locationsMatch then state.handUnlocated resolver request.identifier
      else
        match location with
        | none => (state, none)
        | some location =>
          if location < resolver.sql.length then
            state.grant resolver (resolveQualified resolver request.identifier index
              (skipTrivia resolver.lexer (resolver.sql.drop location)))
          else (state, none), true)

/-- `sqlparser_resolve_identifier` for an identifier that was not generated by an edit: the token that is handed out. -/
def ResolverState.resolve (state : ResolverState) (request : Request) : Answered :=
  let ((next, grant), required) := state.attempt resolver request
  if resolver.auditIdentifiers ∧ grant = none ∧ required then ({ next with auditFailed := true }, none) else (next, grant)

/-- The answers to the requests of a deparser, in their order. -/
def answers : ResolverState → List Request → List (Request × Option Grant)
  | _, [] => []
  | state, request :: requests =>
    (request, (state.resolve resolver request).2) :: answers (state.resolve resolver request).1 requests

/-- The state that the requests leave. -/
def ResolverState.after (state : ResolverState) (requests : List Request) : ResolverState :=
  requests.foldl (fun state request => (state.resolve resolver request).1) state

/-- The requests that were met, with the tokens handed out. -/
def granted (answers : List (Request × Option Grant)) : List (Request × Grant) :=
  answers.filterMap fun answer => answer.2.map (answer.1, ·)

/-! ## What a request finds -/

/-- A token of a text that is seen as an identifier. -/
structure Located (whole identifier : Text) (found : Candidate) : Prop where
  suffix : found.token <:+ whole
  seen : identifierAt resolver found.token identifier = .seen found.after found.spelling

theorem Located.mono {rest whole identifier : Text} {found : Candidate} (located : Located resolver rest identifier found)
    (suffix : rest <:+ whole) : Located resolver whole identifier found :=
  ⟨located.suffix.trans suffix, located.seen⟩

theorem searchForward_located {identifier rest : Text} {found : Candidate}
    (search : (searchForward resolver identifier rest).result = some found) : Located resolver rest identifier found := by
  rw [searchForward_eq] at search
  obtain ⟨suffix, seen⟩ := candidates_found resolver (List.mem_of_getLast? search)
  exact ⟨suffix, seen⟩

theorem sighting_located {identifier token : Text} {found : Candidate}
    (search : ((identifierAt resolver token identifier).search token).result = some found) :
    Located resolver token identifier found := by
  cases sighted : identifierAt resolver token identifier with
  | absent =>
    rw [sighted] at search
    cases search
  | unproven =>
    rw [sighted] at search
    cases search
  | seen after spelling =>
    rw [sighted] at search
    cases search
    exact ⟨List.suffix_refl token, sighted⟩

theorem resolveQualified_located {identifier rest : Text} {index : Nat} {found : Candidate}
    (search : (resolveQualified resolver identifier index rest).result = some found) : Located resolver rest identifier found := by
  induction index generalizing rest with
  | zero => exact sighting_located resolver search
  | succ index inductionHypothesis =>
    rw [resolveQualified] at search
    split at search
    · cases search
    split at search
    next dot more isDot =>
      split at search
      · have suffix : dot :: more <:+ rest := by
          rw [← isDot]
          exact (skipTrivia_suffix _ _).trans (sourceIdentifierEnd_suffix _ _)
        exact (inductionHypothesis search).mono resolver ((skipTrivia_suffix _ _).trans ((List.suffix_cons _ _).trans suffix))
      · cases search
    · cases search

theorem resolveWindow_located {identifier definition rest : Text} {found : Candidate}
    (search : (resolveWindow resolver identifier definition rest).result = some found) :
    Located resolver rest identifier found := by
  fun_induction resolveWindow resolver identifier definition rest with
  | case1 rest before token own named => exact (sighting_located resolver search).mono resolver (skipTrivia_suffix _ _)
  | case2 rest before token own unnamed later inductionHypothesis =>
    exact (inductionHypothesis search).mono resolver ((windowNext_suffix resolver _).trans (skipTrivia_suffix resolver.lexer rest))
  | case3 => cases search

theorem resolveAccessMethod_located {identifier rest : Text} {found : Candidate}
    (search : (resolveAccessMethod resolver identifier rest).1.result = some found) : Located resolver rest identifier found := by
  unfold resolveAccessMethod at search
  dsimp only at search
  split at search
  · exact (sighting_located resolver search).mono resolver
      ((skipTrivia_suffix _ _).trans ((identifierEnd_suffix _).trans (skipTrivia_suffix _ _)))
  · cases search

theorem Located.ne_nil {whole identifier : Text} {found : Candidate} (located : Located resolver whole identifier found) :
    found.token ≠ [] := by
  intro empty
  rcases identifierAt_seen resolver located.seen with ⟨-, word⟩ | ⟨-, reads, -⟩
  · obtain ⟨isEnd, moved, -⟩ := keywordAt_seen word
    rw [empty] at isEnd moved
    exact moved isEnd
  · rw [empty] at reads
    cases reads

theorem Located.behind {whole identifier : Text} {found : Candidate} (located : Located resolver whole identifier found) :
    found.after.length < found.token.length ∧ found.after <:+ whole := by
  have behind := identifierAt_behind resolver located.seen
  refine ⟨?_, behind.trans ((List.drop_suffix 1 _).trans located.suffix)⟩
  have := behind.length_le
  have := List.length_pos_of_ne_nil located.ne_nil
  rw [List.length_drop] at *
  omega

/-- A part of the text that is seen as an identifier. -/
structure Reads (identifier : Text) (grant : Grant) : Prop where
  nonempty : grant.start < grant.stop
  within : grant.stop ≤ resolver.sql.length
  seen : identifierAt resolver (resolver.sql.drop grant.start) identifier = .seen (resolver.sql.drop grant.stop) grant.spelling

theorem Located.reads {identifier : Text} {found : Candidate} (located : Located resolver resolver.sql identifier found) :
    Reads resolver identifier
      ⟨offsetOf resolver.sql found.token, offsetOf resolver.sql found.after, found.spelling⟩ := by
  obtain ⟨shorter, suffix⟩ := located.behind
  have := located.suffix.length_le
  refine ⟨?_, Nat.sub_le _ _, ?_⟩
  · show offsetOf resolver.sql found.token < offsetOf resolver.sql found.after
    unfold offsetOf
    omega
  · rw [drop_offsetOf located.suffix, drop_offsetOf suffix]
    exact located.seen

/-! ## One request of an audit -/

/-- Whether a request looks for its identifier behind the cursor. -/
def Place.looksAhead : Place → Bool
  | .component _ _ => false
  | _ => true

/-- What a call does under an audit: it hands out a token that is not marked, which moves the cursor and marks the token,
or it hands out none and leaves both. An audit that has failed stays failed. -/
inductive Step (state : ResolverState) (identifier : Text) (ahead : Bool) : Answered → Prop where
  | met {next : ResolverState} {grant : Grant} (reads : Reads resolver identifier grant)
      (fresh : ∀ marks ∈ state.consumed, marks.getD grant.start false = false)
      (behindCursor : ahead = true → state.cursor ≤ grant.start)
      (cursor : next.cursor = max state.cursor grant.stop)
      (consumed : next.consumed = state.consumed.map fun marks => marks.set grant.start true)
      (failed : state.auditFailed = true → next.auditFailed = true) : Step state identifier ahead (next, some grant)
  | unmet {next : ResolverState} (cursor : next.cursor = state.cursor) (consumed : next.consumed = state.consumed)
      (failed : state.auditFailed = true → next.auditFailed = true) : Step state identifier ahead (next, none)

variable {resolver} {state next : ResolverState} {identifier : Text} {ahead : Bool}

theorem Step.refused : Step resolver state identifier ahead (state, none) :=
  .unmet rfl rfl id

theorem Step.failed {answered : Answered} (step : Step resolver state identifier ahead answered)
    (fails : state.auditFailed = true) : answered.1.auditFailed = true := by
  cases step with
  | met _ _ _ _ _ failed => exact failed fails
  | unmet _ _ failed => exact failed fails

/-- A call behind one that handed out nothing. -/
theorem Step.behind {answered : Answered} (step : Step resolver next identifier ahead answered) (cursor : next.cursor = state.cursor)
    (consumed : next.consumed = state.consumed) (failed : state.auditFailed = true → next.auditFailed = true) :
    Step resolver state identifier ahead answered := by
  cases step with
  | met reads fresh behindCursor moved marked stays =>
    exact .met reads (consumed ▸ fresh) (cursor ▸ behindCursor) (cursor ▸ moved) (consumed ▸ marked) fun fails => stays (failed fails)
  | unmet same unmarked stays => exact .unmet (same.trans cursor) (unmarked.trans consumed) fun fails => stays (failed fails)

section audit

variable (audit : resolver.auditIdentifiers = true)
include audit

theorem hand_step {candidate : Candidate} (located : Located resolver resolver.sql identifier candidate)
    (within : ahead = true → candidate.token <:+ resolver.sql.drop state.cursor) :
    Step resolver state identifier ahead (state.hand resolver candidate) := by
  -- what is a part of the rest behind the cursor starts behind it
  have behindCursor (looks : ahead = true) : state.cursor ≤ offsetOf resolver.sql candidate.token := by
    have short := (within looks).length_le
    have := List.length_pos_of_ne_nil located.ne_nil
    rw [List.length_drop] at short
    unfold offsetOf
    omega
  unfold ResolverState.hand ResolverState.consume
  rw [audit]
  cases marked : state.consumed with
  | none =>
    dsimp only
    exact .met located.reads (fun marks isMarks => by rw [marked] at isMarks; cases isMarks) behindCursor rfl
      (by rw [marked]; rfl) id
  | some marks =>
    dsimp only
    cases before : marks.getD (offsetOf resolver.sql candidate.token) false with
    | true =>
      rw [if_pos rfl]
      exact .refused
    | false =>
      rw [if_neg Bool.false_ne_true]
      refine .met located.reads (fun other isOther => ?_) behindCursor rfl (by rw [marked]; rfl) id
      rw [marked] at isOther
      cases isOther
      exact before

theorem grant_step {search : Search} (located : ∀ candidate ∈ search.result, Located resolver resolver.sql identifier candidate)
    (within : ahead = true → ∀ candidate ∈ search.result, candidate.token <:+ resolver.sql.drop state.cursor) :
    Step resolver state identifier ahead (state.grant resolver search) := by
  have failed : state.auditFailed = true → (state.auditFailed || search.unproven) = true := by
    intro fails
    rw [fails, Bool.true_or]
  unfold ResolverState.grant
  dsimp only
  cases found : search.result with
  | none => exact .unmet rfl rfl failed
  | some candidate =>
    exact (@hand_step resolver { state with auditFailed := state.auditFailed || search.unproven } _ _ audit _
      (located candidate found) fun looks => within looks candidate found).behind rfl rfl failed

/-- A search from the cursor on, or from behind it. -/
theorem searched_step {start : Nat} (behindCursor : state.cursor ≤ start) :
    Step resolver state identifier ahead
      (state.grant resolver (searchForward resolver identifier (resolver.sql.drop start))) := by
  have later : resolver.sql.drop start <:+ resolver.sql.drop state.cursor := by
    rw [← Nat.add_sub_cancel' behindCursor, ← List.drop_drop]
    exact List.drop_suffix _ _
  refine grant_step audit (fun candidate found => ?_) fun _ candidate found => ?_
  · exact (searchForward_located resolver found).mono resolver (List.drop_suffix _ _)
  · exact (searchForward_located resolver found).suffix.trans later

theorem handAfterGap_step : Step resolver state identifier ahead (state.handAfterGap resolver identifier) := by
  unfold ResolverState.handAfterGap
  split
  · exact .refused
  · split
    · exact .refused
    next candidate found =>
      dsimp only
      split
      · have located := searchForward_located _ found
        exact hand_step audit ⟨located.suffix.trans (List.drop_suffix _ _), located.seen⟩ fun _ => located.suffix
      · exact .refused

theorem handUnlocated_step : Step resolver state identifier ahead (state.handUnlocated resolver identifier) := by
  have step := @searched_step resolver state identifier ahead audit _ le_rfl
  unfold ResolverState.handUnlocated
  split
  next isAnswer => rwa [isAnswer] at step
  next isAnswer =>
    rw [isAnswer] at step
    rwa [if_pos (.inr audit)]

theorem handForward_step {location : Option Nat} :
    Step resolver state identifier ahead (state.handForward resolver identifier location) := by
  unfold ResolverState.handForward
  split
  · exact .refused
  · have step := @searched_step resolver state identifier ahead audit _ (Nat.le_max_right (location.getD state.cursor) _)
    split
    next isAnswer => rwa [isAnswer] at step
    next isAnswer =>
      rw [isAnswer] at step
      split
      · -- the first search handed out nothing, so the second one starts from the same cursor and marks
        cases step with
        | unmet cursor consumed failed => exact (handAfterGap_step audit).behind cursor consumed failed
      · exact step

/-- Every branch hands out a token of the text, or none. -/
theorem attempt_step (state : ResolverState) (request : Request) :
    Step resolver state request.identifier request.place.looksAhead (state.attempt resolver request).1 := by
  obtain ⟨identifier, place⟩ := request
  cases place with
  | windowName location =>
    cases location with
    | none => exact .refused
    | some location =>
      unfold ResolverState.attempt
      dsimp only
      split
      · exact searched_step audit le_rfl
      · split
        · refine grant_step audit (fun candidate found => ?_) fun _ candidate found => ?_
          · exact (resolveWindow_located resolver found).mono resolver (List.drop_suffix _ _)
          · exact (resolveWindow_located resolver found).suffix
        · exact .refused
  | accessMethod =>
    refine grant_step audit (fun candidate found => ?_) fun _ candidate found => ?_
    · exact (resolveAccessMethod_located resolver found).mono resolver (List.drop_suffix _ _)
    · exact (resolveAccessMethod_located resolver found).suffix
  | forward location =>
    unfold ResolverState.attempt
    dsimp only
    split
    · exact handUnlocated_step audit
    · exact handForward_step audit
  | component location index =>
    unfold ResolverState.attempt
    dsimp only
    split
    · exact handUnlocated_step audit
    · split
      · exact .refused
      · split
        · -- a component is looked for at its location, which may be in front of the cursor
          refine grant_step audit (fun candidate found => ?_) nofun
          exact (resolveQualified_located resolver found).mono resolver
            ((skipTrivia_suffix _ _).trans (List.drop_suffix _ _))
        · exact .refused

/-- The request that may stay unmet: the access method of an index that names none. -/
def Request.isImplicit (request : Request) : Prop :=
  request.place = .accessMethod ∧ request.identifier = ascii "btree"

omit audit in
theorem attempt_required {request : Request} (notRequired : (state.attempt resolver request).2 = false) : request.isImplicit := by
  unfold ResolverState.attempt at notRequired
  split at notRequired
  · cases notRequired
  · cases notRequired
  next isPlace =>
    refine ⟨isPlace, ?_⟩
    rw [Bool.or_eq_false_iff, decide_eq_false_iff_not, not_not] at notRequired
    exact notRequired.2
  · cases notRequired
  · cases notRequired

/-- A request hands out a token of the text, or none; and then it fails the audit, but for an implicit access method. -/
theorem resolve_step (state : ResolverState) (request : Request) :
    Step resolver state request.identifier request.place.looksAhead (state.resolve resolver request) ∧
      ((state.resolve resolver request).2 = none → (state.resolve resolver request).1.auditFailed = false → request.isImplicit) := by
  have step := attempt_step audit state request
  unfold ResolverState.resolve
  cases isAttempt : state.attempt resolver request with
  | mk answered required =>
    have isRequired := @attempt_required resolver state request
    rw [isAttempt] at step isRequired
    obtain ⟨next, grant⟩ := answered
    dsimp only at step ⊢
    split
    next fails =>
      -- the failure is of an attempt that handed out nothing
      obtain ⟨-, rfl, -⟩ := fails
      cases step with
      | unmet cursor consumed failed => exact ⟨.unmet cursor consumed fun _ => rfl, fun _ passed => by cases passed⟩
    next passes =>
      refine ⟨step, fun unmet _ => isRequired (eq_false_of_ne_true fun required => ?_)⟩
      exact passes ⟨audit, unmet, required⟩

/-! ## The requests of a deparser -/

omit audit in
theorem granted_cons (answer : Request × Option Grant) (rest : List (Request × Option Grant)) :
    granted (answer :: rest) = (answer.2.map (answer.1, ·)).toList ++ granted rest := by
  cases isAnswer : answer.2 with
  | none =>
    rw [granted, List.filterMap_cons, isAnswer]
    rfl
  | some grant =>
    rw [granted, List.filterMap_cons, isAnswer]
    rfl

/-- The marks, where there are some, have a place for each byte of the text. -/
def ResolverState.Sized (resolver : Resolver) (state : ResolverState) : Prop :=
  ∀ marks ∈ state.consumed, marks.length = resolver.sql.length

omit audit in
theorem Step.sized {answered : Answered} (step : Step resolver state identifier ahead answered) (sized : state.Sized resolver) :
    answered.1.Sized resolver := by
  intro marks isMarks
  cases step with
  | met _ _ _ _ consumed _ =>
    rw [consumed] at isMarks
    obtain ⟨before, wasMarks, rfl⟩ := Option.mem_map.mp isMarks
    rw [List.length_set]
    exact sized before wasMarks
  | unmet _ consumed _ => exact sized marks (consumed ▸ isMarks)

/-- What a run hands out, from any state. -/
structure Audited (resolver : Resolver) (state last : ResolverState) (given : List (Request × Grant)) : Prop where
  reads : ∀ answer ∈ given, Reads resolver answer.1.identifier answer.2
  unconsumed : ∀ marks ∈ state.consumed, ∀ answer ∈ given, marks.getD answer.2.start false = false
  distinct : state.consumed.isSome → (given.map fun answer => answer.2.start).Nodup
  ahead : ∀ answer ∈ given, answer.1.place.looksAhead = true → state.cursor ≤ answer.2.start
  ordered : given.Pairwise fun earlier later => later.1.place.looksAhead = true → earlier.2.stop ≤ later.2.start
  cursor : last.cursor = (given.map fun answer => answer.2.stop).foldl max state.cursor

omit audit in
/-- A grant in front of those of a later run: the run starts behind it, and finds its token marked. -/
theorem Audited.met {last : ResolverState} {given : List (Request × Grant)} {request : Request} {grant : Grant}
    (later : Audited resolver next last given) (sized : state.Sized resolver) (reads : Reads resolver request.identifier grant)
    (fresh : ∀ marks ∈ state.consumed, marks.getD grant.start false = false)
    (behindCursor : request.place.looksAhead = true → state.cursor ≤ grant.start)
    (cursor : next.cursor = max state.cursor grant.stop)
    (consumed : next.consumed = state.consumed.map fun marks => marks.set grant.start true) :
    Audited resolver state last ((request, grant) :: given) := by
  have marked (marks : List Bool) (isMarks : marks ∈ state.consumed) (answer : Request × Grant) (member : answer ∈ given) :
      grant.start ≠ answer.2.start ∧ marks.getD answer.2.start false = false := by
    have within : grant.start < marks.length := by
      rw [sized marks isMarks]
      exact Nat.lt_of_lt_of_le reads.nonempty reads.within
    have free := later.unconsumed (marks.set grant.start true) (by rw [consumed, Option.mem_def.mp isMarks]; rfl) answer member
    rw [List.getD_eq_getElem?_getD, List.getElem?_set] at free
    by_cases same : grant.start = answer.2.start
    · -- the later run starts with this token marked
      rw [if_pos same, if_pos within] at free
      cases free
    · rw [if_neg same, ← List.getD_eq_getElem?_getD] at free
      exact ⟨same, free⟩
  constructor
  · exact List.forall_mem_cons.mpr ⟨reads, later.reads⟩
  · intro marks isMarks
    exact List.forall_mem_cons.mpr ⟨fresh marks isMarks, fun answer member => (marked marks isMarks answer member).2⟩
  · intro marks
    obtain ⟨marks, isMarks⟩ := Option.isSome_iff_exists.mp marks
    have later := later.distinct (by rw [consumed, isMarks]; rfl)
    refine List.nodup_cons.mpr ⟨fun listed => ?_, later⟩
    obtain ⟨answer, member, same⟩ := List.mem_map.mp listed
    exact (marked marks isMarks answer member).1 same.symm
  · refine List.forall_mem_cons.mpr ⟨behindCursor, fun answer member looks => ?_⟩
    have := later.ahead answer member looks
    rw [cursor] at this
    exact (Nat.le_max_left _ _).trans this
  · refine List.pairwise_cons.mpr ⟨fun answer member looks => ?_, later.ordered⟩
    have := later.ahead answer member looks
    rw [cursor] at this
    exact (Nat.le_max_right _ _).trans this
  · rw [List.map_cons, List.foldl_cons, ← cursor]
    exact later.cursor

theorem audited (requests : List Request) (state : ResolverState) (sized : state.Sized resolver) :
    Audited resolver state (state.after resolver requests) (granted (answers resolver state requests)) := by
  induction requests generalizing state with
  | nil =>
    exact ⟨List.forall_mem_nil _, fun _ _ => List.forall_mem_nil _, fun _ => .nil, List.forall_mem_nil _, .nil, rfl⟩
  | cons request requests inductionHypothesis =>
    -- the invariant is about any state to start from, so it holds of the later requests in the state behind the first
    have step := (resolve_step audit state request).1
    have later := inductionHypothesis (state.resolve resolver request).1 (step.sized sized)
    rw [answers, granted_cons]
    show Audited resolver state ((state.resolve resolver request).1.after resolver requests) _
    generalize granted (answers resolver (state.resolve resolver request).1 requests) = given at later ⊢
    generalize state.resolve resolver request = answered at step later ⊢
    cases step with
    | met reads fresh behindCursor cursor consumed _ => exact later.met sized reads fresh behindCursor cursor consumed
    | unmet cursor consumed _ =>
      exact ⟨later.reads, consumed ▸ later.unconsumed, consumed ▸ later.distinct, cursor ▸ later.ahead, later.ordered,
        cursor ▸ later.cursor⟩

/-- An audit that did not fail met every request but those. -/
theorem audit_met (requests : List Request) (state : ResolverState)
    (passed : (state.after resolver requests).auditFailed = false) :
    state.auditFailed = false ∧ ∀ answer ∈ answers resolver state requests, answer.2 = none → answer.1.isImplicit := by
  induction requests generalizing state with
  | nil => exact ⟨passed, List.forall_mem_nil _⟩
  | cons request requests inductionHypothesis =>
    obtain ⟨passed, later⟩ := inductionHypothesis (state.resolve resolver request).1 passed
    obtain ⟨step, required⟩ := resolve_step audit state request
    refine ⟨eq_false_of_ne_true fun fails => ?_, List.forall_mem_cons.mpr ⟨fun unmet => required unmet passed, later⟩⟩
    -- an audit that failed before the request has failed behind it
    have stays := step.failed fails
    rw [passed] at stays
    cases stays

end audit

/-- Whatever a deparser asks for, an audit hands out tokens of the text that mean the identifiers asked for, and a
search ahead finds one behind the cursor and behind all that were handed out before. With marks each token is handed
out at most once. The cursor is the end of the last of them, and an audit that did not fail met every request but those
for the access method that an index need not name. -/
theorem audited_requests (audit : resolver.auditIdentifiers = true) (cursor : Nat) (marks : Bool) (requests : List Request) :
    let start := ResolverState.initial resolver cursor marks
    let given := granted (answers resolver start requests)
    let last := start.after resolver requests
    (∀ answer ∈ given, answer.2.start < answer.2.stop ∧ answer.2.stop ≤ resolver.sql.length ∧
        Means resolver answer.1.identifier (resolver.sql.drop answer.2.start) (resolver.sql.drop answer.2.stop)
          answer.2.spelling) ∧
      (marks = true → (given.map fun answer => answer.2.start).Nodup) ∧
      (∀ answer ∈ given, answer.1.place.looksAhead = true → cursor ≤ answer.2.start) ∧
      (given.Pairwise fun earlier later => later.1.place.looksAhead = true → earlier.2.stop ≤ later.2.start) ∧
      last.cursor = (given.map fun answer => answer.2.stop).foldl max cursor ∧
      (last.auditFailed = false → ∀ answer ∈ answers resolver start requests, answer.2 = none → answer.1.isImplicit) := by
  intro start given last
  have sized : start.Sized resolver := by
    intro isMarks member
    cases marks with
    | false => cases member
    | true =>
      cases member
      exact List.length_replicate
  have run := audited audit requests start sized
  refine ⟨fun answer member => ?_, fun marked => run.distinct ?_, run.ahead, run.ordered, run.cursor, fun passed => ?_⟩
  · have reads := run.reads answer member
    exact ⟨reads.nonempty, reads.within, identifierAt_means resolver reads.seen⟩
  · subst marked
    rfl
  · exact (audit_met audit requests start passed).2

/-- The audit of a statement of MySQL, of which the parser gets the quoted names in double quotes. -/
def backtickResolver : Resolver where
  sql := ascii "SELECT \"A\", b FROM \"A\""
  lexer := lexer .postgresql
  colonBinds := true
  atBinds := false
  topKeyword := false
  locationsMatch := true
  keywordMatch := false
  auditIdentifiers := true
  origins := some ⟨[⟨.sourceLinear, 0, 7, 0, 7⟩, ⟨.sourceIdentifier, 7, 3, 7, 3⟩, ⟨.sourceLinear, 10, 9, 10, 9⟩,
    ⟨.sourceIdentifier, 19, 3, 19, 3⟩], 22⟩
  originSource := some ⟨ascii "SELECT `A`, b FROM `A`", lexer .mysql⟩
  dialect := .mysql
  generation := 1
  isKeyword := fun word => word = ascii "SELECT" || word = ascii "FROM"

/-- The second request finds the token of the first one, and is not met. -/
def backtickRequests : List Request :=
  [⟨ascii "A", .forward none⟩, ⟨ascii "A", .component (some 7) 0⟩, ⟨ascii "b", .component (some 12) 0⟩,
    ⟨ascii "A", .forward (some 19)⟩]

theorem audited_requests_backtick :
    let start := ResolverState.initial backtickResolver 0 true
    (answers backtickResolver start backtickRequests).map Prod.snd =
        [some ⟨7, 10, ascii "`A`"⟩, none, some ⟨12, 13, ascii "b"⟩, some ⟨19, 22, ascii "`A`"⟩] ∧
      (∀ answer ∈ granted (answers backtickResolver start backtickRequests),
        Means backtickResolver answer.1.identifier (backtickResolver.sql.drop answer.2.start)
          (backtickResolver.sql.drop answer.2.stop) answer.2.spelling) ∧
      ((granted (answers backtickResolver start backtickRequests)).map fun answer => answer.2.start).Nodup ∧
      (start.after backtickResolver backtickRequests).cursor = 22 ∧
      (start.after backtickResolver backtickRequests).auditFailed = true := by
  have run := @audited_requests backtickResolver rfl 0 true backtickRequests
  exact ⟨by decide +kernel, fun answer member => (run.1 answer member).2.2, run.2.1 rfl, by decide +kernel, by decide +kernel⟩

end resolving

end SqlParser.Core.Source

