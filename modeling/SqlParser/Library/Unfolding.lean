import Mathlib

/-! # Unfoldings of a graph, and walks that mark what they visit

A graph is given by the keys below each key. Its unfolding from some keys lists every key once for
each path to it. A walk that refuses the keys it has marked succeeds exactly where the unfolding
is finite and lists nothing twice.
-/

namespace SqlParser.Library.Unfolding

variable {Key Item Failure : Type} [DecidableEq Key]

/-! ## Unfoldings -/

/-- The keys on the paths from some keys, in the order of a walk. A key without an entry in `below` is malformed,
and at most `levels` costly keys stand on a path. -/
inductive Unfolds (below : Key → Option (List Key)) (costly : Key → Bool) : Nat → List Key → List Key → Prop
  | nil {levels : Nat} : Unfolds below costly levels [] []
  | cons {levels : Nat} {key : Key} {keys children inside behind : List Key} (found : below key = some children)
      (room : (costly key).toNat ≤ levels) (descends : Unfolds below costly (levels - (costly key).toNat) children inside)
      (rest : Unfolds below costly levels keys behind) :
    Unfolds below costly levels (key :: keys) (key :: (inside ++ behind))

section unfoldings

variable {below : Key → Option (List Key)} {costly : Key → Bool} {levels : Nat} {keys others visits : List Key}

omit [DecidableEq Key] in
theorem Unfolds.append_iff :
    Unfolds below costly levels (keys ++ others) visits ↔
      ∃ first second, Unfolds below costly levels keys first ∧ Unfolds below costly levels others second ∧
        visits = first ++ second := by
  induction keys generalizing visits with
  | nil =>
    constructor
    · exact fun unfolds => ⟨[], visits, .nil, unfolds, rfl⟩
    · rintro ⟨first, second, nothing, unfolds, rfl⟩
      cases nothing
      exact unfolds
  | cons key keys inductionHypothesis =>
    constructor
    · intro unfolds
      cases unfolds with
      | cons found room descends rest =>
        obtain ⟨first, second, front, back, rfl⟩ := inductionHypothesis.mp rest
        exact ⟨_, second, .cons found room descends front, back, by simp⟩
    · rintro ⟨first, second, front, back, rfl⟩
      cases front with
      | cons found room descends rest =>
        have together := Unfolds.cons found room descends (inductionHypothesis.mpr ⟨_, second, rest, back, rfl⟩)
        simpa using together

omit [DecidableEq Key] in
theorem Unfolds.singleton_iff {key : Key} :
    Unfolds below costly levels [key] visits ↔
      ∃ children inside, below key = some children ∧ (costly key).toNat ≤ levels ∧
        Unfolds below costly (levels - (costly key).toNat) children inside ∧ visits = key :: inside := by
  constructor
  · intro unfolds
    cases unfolds with
    | cons found room descends rest =>
      cases rest
      exact ⟨_, _, found, room, descends, by simp⟩
  · rintro ⟨children, inside, found, room, descends, rfl⟩
    simpa using Unfolds.cons found room descends .nil

omit [DecidableEq Key] in
/-- What is listed is well formed, and what is below it is listed too. -/
theorem Unfolds.closed (unfolds : Unfolds below costly levels keys visits) :
    keys ⊆ visits ∧ ∀ key ∈ visits, ∃ children, below key = some children ∧ children ⊆ visits := by
  induction unfolds with
  | nil => simp
  | cons found room descends rest inside behind =>
    obtain ⟨childrenInside, insideClosed⟩ := inside
    obtain ⟨keysBehind, behindClosed⟩ := behind
    constructor
    · intro key member
      obtain rfl | later := List.mem_cons.mp member
      · exact List.mem_cons_self
      · exact List.mem_cons_of_mem _ (List.mem_append_right _ (keysBehind later))
    · intro key member
      obtain rfl | later := List.mem_cons.mp member
      · exact ⟨_, found, fun child isChild => List.mem_cons_of_mem _ (List.mem_append_left _ (childrenInside isChild))⟩
      · obtain within | after := List.mem_append.mp later
        · obtain ⟨children, known, listed⟩ := insideClosed key within
          exact ⟨children, known, fun child isChild => List.mem_cons_of_mem _ (List.mem_append_left _ (listed isChild))⟩
        · obtain ⟨children, known, listed⟩ := behindClosed key after
          exact ⟨children, known, fun child isChild => List.mem_cons_of_mem _ (List.mem_append_right _ (listed isChild))⟩

/-- How many keys of a kind stand below a key. -/
def countBelow (below : Key → Option (List Key)) (isKind : Key → Bool) (key : Key) : Nat :=
  ((below key).getD []).countP isKind

omit [DecidableEq Key] in
/-- Every listed key is one of the first or stands below a listed one. -/
theorem Unfolds.count (unfolds : Unfolds below costly levels keys visits) (isKind : Key → Bool) :
    visits.countP isKind = keys.countP isKind + (visits.map (countBelow below isKind)).sum := by
  induction unfolds with
  | nil => rfl
  | cons found room descends rest inside behind =>
    have here : countBelow below isKind _ = _ := congrArg (fun children => (children.getD []).countP isKind) found
    simp only [List.countP_cons, List.countP_append, List.map_cons, List.map_append, List.sum_cons, List.sum_append,
      inside, behind, here, Option.getD_some]
    omega

end unfoldings

/-! ## Marks -/

/-- A key is marked, unless it was. -/
def mark (failure : Failure) (key : Key) (seen : List Key) : Except Failure (List Key) :=
  if key ∈ seen then .error failure else .ok (seen ++ [key])

/-- The walk adds what it visits to the marks, and succeeds exactly if none of that was marked or is visited twice. -/
def Walks (walk : List Key → Except Failure (List Key)) (Visits : List Key → Prop) : Prop :=
  ∀ seen marked, walk seen = .ok marked ↔
    ∃ visits, Visits visits ∧ visits.Nodup ∧ visits.Disjoint seen ∧ marked = seen ++ visits

section marks

variable {first second walk : List Key → Except Failure (List Key)} {Before After Visits : List Key → Prop}

omit [DecidableEq Key] in
theorem Walks.congr (walks : Walks walk Before) (same : ∀ visits, Before visits ↔ After visits) : Walks walk After := by
  intro seen marked
  rw [walks seen marked]
  exact exists_congr fun visits => and_congr_left fun _ => same visits

omit [DecidableEq Key] in
theorem walks_nothing : Walks (.ok : List Key → Except Failure (List Key)) (· = []) := by
  intro seen marked
  constructor
  · intro same
    cases same
    exact ⟨[], rfl, List.nodup_nil, List.disjoint_nil_left _, (List.append_nil _).symm⟩
  · rintro ⟨visits, rfl, -, -, rfl⟩
    rw [List.append_nil]

omit [DecidableEq Key] in
theorem walks_failure (fails : ∀ seen marked, walk seen ≠ .ok marked) (nothing : ∀ visits, ¬ Visits visits) :
    Walks walk Visits :=
  fun seen marked => ⟨fun succeeds => absurd succeeds (fails seen marked), fun ⟨visits, visited, _⟩ => absurd visited (nothing visits)⟩

theorem walks_mark (failure : Failure) (key : Key) : Walks (mark failure key) (· = [key]) := by
  intro seen marked
  rw [mark]
  constructor
  · intro succeeds
    split at succeeds
    next => cases succeeds
    next fresh =>
      cases succeeds
      exact ⟨[key], rfl, List.nodup_singleton key, by simpa using fresh, rfl⟩
  · rintro ⟨visits, rfl, -, disjoint, rfl⟩
    rw [if_neg (by simpa using disjoint)]

omit [DecidableEq Key] in
theorem Walks.bind (before : Walks first Before) (after : Walks second After) :
    Walks (fun seen => first seen >>= second)
      fun visits => ∃ front back, Before front ∧ After back ∧ visits = front ++ back := by
  intro seen marked
  beta_reduce
  constructor
  · intro succeeds
    cases between : first seen with
    | error => rw [between] at succeeds; cases succeeds
    | ok middle =>
      rw [between] at succeeds
      obtain ⟨front, isFront, frontNodup, frontFresh, rfl⟩ := (before seen middle).mp between
      obtain ⟨back, isBack, backNodup, backFresh, rfl⟩ := (after _ marked).mp succeeds
      rw [List.disjoint_append_right] at backFresh
      exact ⟨front ++ back, ⟨front, back, isFront, isBack, rfl⟩,
        List.nodup_append'.mpr ⟨frontNodup, backNodup, backFresh.2.symm⟩,
        List.disjoint_append_left.mpr ⟨frontFresh, backFresh.1⟩, List.append_assoc _ _ _⟩
  · rintro ⟨visits, ⟨front, back, isFront, isBack, rfl⟩, nodup, fresh, rfl⟩
    obtain ⟨frontNodup, backNodup, apart⟩ := List.nodup_append'.mp nodup
    obtain ⟨frontFresh, backFresh⟩ := List.disjoint_append_left.mp fresh
    have between := (before seen (seen ++ front)).mpr ⟨front, isFront, frontNodup, frontFresh, rfl⟩
    have behind := (after (seen ++ front) (seen ++ front ++ back)).mpr
      ⟨back, isBack, backNodup, List.disjoint_append_right.mpr ⟨backFresh, apart.symm⟩, rfl⟩
    rw [between, ← List.append_assoc]
    exact behind

variable {below : Key → Option (List Key)} {costly : Key → Bool} {levels : Nat}

/-- A walk that marks a key and then walks what is below it. -/
theorem Walks.visit {key : Key} {children : List Key} (failure : Failure) (found : below key = some children)
    (room : (costly key).toNat ≤ levels)
    (descends : Walks walk (Unfolds below costly (levels - (costly key).toNat) children)) :
    Walks (fun seen => mark failure key seen >>= walk) (Unfolds below costly levels [key]) := by
  refine ((walks_mark failure key).bind descends).congr fun visits => ?_
  rw [Unfolds.singleton_iff]
  constructor
  · rintro ⟨_, inside, rfl, unfolds, rfl⟩
    exact ⟨children, inside, found, room, unfolds, rfl⟩
  · rintro ⟨children', inside, found', -, unfolds, rfl⟩
    rw [found] at found'
    cases found'
    exact ⟨[key], inside, rfl, unfolds, rfl⟩

/-- A key that is malformed, or too deep, is refused whatever the walk below it does. -/
theorem Walks.refuse {key : Key} (failure : Failure)
    (refused : ∀ children, below key = some children → levels < (costly key).toNat)
    (fails : ∀ seen marked, walk seen ≠ .ok marked) :
    Walks (fun seen => mark failure key seen >>= walk) (Unfolds below costly levels [key]) := by
  apply walks_failure
  · intro seen marked succeeds
    beta_reduce at succeeds
    cases between : mark failure key seen with
    | error => rw [between] at succeeds; cases succeeds
    | ok middle =>
      rw [between] at succeeds
      exact fails middle marked succeeds
  · intro visits unfolds
    obtain ⟨children, -, found, room, -⟩ := Unfolds.singleton_iff.mp unfolds
    exact Nat.not_le_of_lt (refused children found) room

/-- A walk over some items, each of which stands for a key and has to fit. -/
theorem walks_each {visit : Item → List Key → Except Failure (List Key)} {keyOf : Item → Key} {Fits : Item → Prop}
    (items : List Item)
    (walks : ∀ item ∈ items, Walks (visit item) fun visits => Fits item ∧ Unfolds below costly levels [keyOf item] visits) :
    Walks (fun seen => items.foldlM (fun marked item => visit item marked) seen)
      fun visits => (∀ item ∈ items, Fits item) ∧ Unfolds below costly levels (items.map keyOf) visits := by
  induction items with
  | nil =>
    refine walks_nothing.congr fun visits => ?_
    constructor
    · rintro rfl
      exact ⟨by simp, .nil⟩
    · rintro ⟨-, unfolds⟩
      cases unfolds
      rfl
  | cons item items inductionHypothesis =>
    have rest := inductionHypothesis fun other member => walks other (List.mem_cons_of_mem _ member)
    simp only [List.foldlM_cons]
    refine ((walks item List.mem_cons_self).bind rest).congr fun visits => ?_
    have split := @Unfolds.append_iff _ below costly levels [keyOf item] (items.map keyOf) visits
    rw [List.singleton_append] at split
    rw [List.map_cons, split, List.forall_mem_cons]
    constructor
    · rintro ⟨front, back, ⟨fits, unfolds⟩, ⟨others, behind⟩, rfl⟩
      exact ⟨⟨fits, others⟩, front, back, unfolds, behind, rfl⟩
    · rintro ⟨⟨fits, others⟩, front, back, unfolds, behind, rfl⟩
      exact ⟨front, back, ⟨fits, unfolds⟩, ⟨others, behind⟩, rfl⟩

end marks

end SqlParser.Library.Unfolding
