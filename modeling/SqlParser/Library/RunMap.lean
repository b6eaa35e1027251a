import Mathlib

/-! # Run-length maps between texts

A position map between two texts is stored as a sorted list of runs.  A linear
run maps consecutive positions to consecutive targets; an atomic run gives one
payload to its whole range and nothing to a part of it.  Adjacent linear runs
that continue each other are merged.  The module describes merging, restriction
to a window and composition by what the maps answer, not by their run lists.
-/

namespace SqlParser.Library.RunMap

variable {κ : Type*}

inductive Image (κ : Type*) where
  | linear (source : Nat)
  | atomic (payload : κ)

structure Run (κ : Type*) where
  start : Nat
  length : Nat
  image : Image κ

namespace Run

def stop (run : Run κ) : Nat :=
  run.start + run.length

/-- The run maps one position to one target. -/
def Covers (run : Run κ) (position target : Nat) : Prop :=
  ∃ source, run.image = .linear source ∧ run.start ≤ position ∧ position < run.stop ∧
    target = source + (position - run.start)

/-- Two linear runs that continue each other in both texts. -/
def mergeable (left right : Run κ) : Bool :=
  match left.image, right.image with
  | .linear source, .linear target => left.stop == right.start && source + left.length == target
  | _, _ => false

theorem mergeable_iff {left right : Run κ} : left.mergeable right = true ↔
    ∃ source, left.image = .linear source ∧ right.image = .linear (source + left.length) ∧
      left.stop = right.start := by
  unfold mergeable
  split
  next source target leftImage rightImage =>
    simp only [leftImage, rightImage, Bool.and_eq_true, beq_iff_eq, Image.linear.injEq]
    constructor
    · rintro ⟨touching, continued⟩
      exact ⟨source, rfl, continued.symm, touching⟩
    · rintro ⟨_, rfl, continued, touching⟩
      exact ⟨touching, continued.symm⟩
  next other =>
    simp only [Bool.false_eq_true, false_iff, not_exists, not_and]
    exact fun source leftImage rightImage => absurd rightImage (other _ _ leftImage)

end Run

def Covers (runs : List (Run κ)) (position target : Nat) : Prop :=
  ∃ run ∈ runs, run.Covers position target

/-- The whole range is one atomic run. -/
def Exact (runs : List (Run κ)) (start length : Nat) (payload : κ) : Prop :=
  ⟨start, length, .atomic payload⟩ ∈ runs

/-- What the map says about a range: an exact payload or the source of a linear copy. -/
def Answers (runs : List (Run κ)) (start length : Nat) : Image κ → Prop
  | .atomic payload => Exact runs start length payload
  | .linear source => ∀ offset < length, Covers runs (start + offset) (source + offset)

structure WellFormed (bound : Nat) (runs : List (Run κ)) : Prop where
  sorted : runs.Pairwise (fun left right => left.stop ≤ right.start)
  positive : ∀ run ∈ runs, 0 < run.length
  bounded : ∀ run ∈ runs, run.stop ≤ bound

/-- No two neighbours could have been merged. -/
def Separated (runs : List (Run κ)) : Prop :=
  runs.IsChain (fun left right => left.mergeable right = false)

/-! ## Uniqueness of answers -/

theorem WellFormed.eq_of_shared {bound : Nat} {runs : List (Run κ)} (wellFormed : WellFormed bound runs)
    {left right : Run κ} (leftMember : left ∈ runs) (rightMember : right ∈ runs) (position : Nat)
    (inLeft : left.start ≤ position ∧ position < left.stop)
    (inRight : right.start ≤ position ∧ position < right.stop) : left = right := by
  have sorted := wellFormed.sorted
  clear wellFormed
  induction runs with
  | nil => cases leftMember
  | cons head tail inductionHypothesis =>
    obtain ⟨first, rest⟩ := List.pairwise_cons.mp sorted
    cases leftMember with
    | head =>
      cases rightMember with
      | head => rfl
      | tail _ rightMember =>
        have := first right rightMember
        omega
    | tail _ leftMember =>
      cases rightMember with
      | head =>
        have := first left leftMember
        omega
      | tail _ rightMember => exact inductionHypothesis leftMember rightMember rest

theorem Run.Covers.inside {run : Run κ} {position target : Nat} (covers : run.Covers position target) :
    run.start ≤ position ∧ position < run.stop := by
  obtain ⟨source, -, lower, upper, -⟩ := covers
  exact ⟨lower, upper⟩

/-! ## Appending with a merge -/

/-- Append a run, extending the last one when both are linear and continue each other. -/
def push (runs : List (Run κ)) (run : Run κ) : List (Run κ) :=
  match runs.getLast? with
  | some last =>
    if last.mergeable run then runs.dropLast ++ [{ last with length := last.length + run.length }]
    else runs ++ [run]
  | none => [run]

theorem push_cases (runs : List (Run κ)) (run : Run κ) :
    push runs run = runs ++ [run] ∧ (∀ last ∈ runs.getLast?, last.mergeable run = false) ∨
      ∃ front last, runs = front ++ [last] ∧ last.mergeable run = true ∧
        push runs run = front ++ [{ last with length := last.length + run.length }] := by
  obtain rfl | ⟨front, last, rfl⟩ := List.eq_nil_or_concat runs
  · exact .inl ⟨rfl, by simp⟩
  · simp only [List.concat_eq_append, push, List.getLast?_concat, List.dropLast_concat]
    by_cases merge : last.mergeable run = true
    · exact .inr ⟨front, last, rfl, merge, if_pos merge⟩
    · exact .inl ⟨if_neg merge, by simpa using merge⟩

theorem merged_covers {last run : Run κ} (merge : last.mergeable run = true) (position target : Nat) :
    Run.Covers { last with length := last.length + run.length } position target ↔
      last.Covers position target ∨ run.Covers position target := by
  obtain ⟨source, lastImage, runImage, touching⟩ := Run.mergeable_iff.mp merge
  simp only [Run.stop] at touching
  simp only [Run.Covers, lastImage, runImage, Image.linear.injEq, exists_eq_left', Run.stop]
  omega

theorem push_covers (runs : List (Run κ)) (run : Run κ) (position target : Nat) :
    Covers (push runs run) position target ↔
      Covers runs position target ∨ run.Covers position target := by
  obtain ⟨appended, -⟩ | ⟨front, last, rfl, merge, merged⟩ := push_cases runs run
  · simp [Covers, appended, or_and_right, exists_or]
  · simp [Covers, merged, or_and_right, exists_or, merged_covers merge, or_assoc]

theorem push_exact (runs : List (Run κ)) (run : Run κ) (start length : Nat) (payload : κ) :
    Exact (push runs run) start length payload ↔
      Exact runs start length payload ∨ run = ⟨start, length, .atomic payload⟩ := by
  obtain ⟨appended, -⟩ | ⟨front, last, rfl, merge, merged⟩ := push_cases runs run
  · simp [Exact, appended, eq_comm]
  · obtain ⟨source, lastImage, runImage, -⟩ := Run.mergeable_iff.mp merge
    have lastLinear : last ≠ ⟨start, length, .atomic payload⟩ := fun equal => by simp [equal] at lastImage
    have runLinear : run ≠ ⟨start, length, .atomic payload⟩ := fun equal => by simp [equal] at runImage
    simp [Exact, merged, lastLinear.symm, runLinear, lastImage]

theorem push_wellFormed {bound : Nat} {runs : List (Run κ)} {run : Run κ}
    (wellFormed : WellFormed bound runs) (after : bound ≤ run.start) (positive : 0 < run.length) :
    WellFormed run.stop (push runs run) := by
  have runBound : bound ≤ run.stop := by simp only [Run.stop]; omega
  obtain ⟨appended, -⟩ | ⟨front, last, rfl, merge, merged⟩ := push_cases runs run
  · rw [appended]
    refine ⟨List.pairwise_append.mpr ⟨wellFormed.sorted, List.pairwise_singleton _ _, ?_⟩, ?_, ?_⟩
    · intro other member _ isRun
      rw [List.mem_singleton] at isRun
      exact isRun ▸ (wellFormed.bounded other member).trans after
    · simpa [or_imp, forall_and] using ⟨wellFormed.positive, positive⟩
    · simpa [or_imp, forall_and] using fun other member =>
        (wellFormed.bounded other member).trans runBound
  · obtain ⟨source, -, -, touching⟩ := Run.mergeable_iff.mp merge
    obtain ⟨frontSorted, -, across⟩ := List.pairwise_append.mp wellFormed.sorted
    have mergedStop : Run.stop { last with length := last.length + run.length } = run.stop := by
      simp only [Run.stop] at touching ⊢
      omega
    rw [merged]
    refine ⟨List.pairwise_append.mpr ⟨frontSorted, List.pairwise_singleton _ _, ?_⟩, ?_, ?_⟩
    · intro other member _ isMerged
      rw [List.mem_singleton] at isMerged
      exact isMerged ▸ across other member last (List.mem_singleton.mpr rfl)
    · have frontPositive := fun other member =>
        wellFormed.positive other (List.mem_append_left [last] member)
      have mergedPositive : 0 < last.length + run.length := Nat.add_pos_right last.length positive
      intro other member
      rw [List.mem_append, List.mem_singleton] at member
      obtain inFront | rfl := member
      · exact frontPositive other inFront
      · exact mergedPositive
    · have frontBounded := fun other member =>
        (wellFormed.bounded other (List.mem_append_left [last] member)).trans runBound
      simpa [or_imp, forall_and, mergedStop] using frontBounded

theorem push_separated {runs : List (Run κ)} {run : Run κ} (separated : Separated runs) :
    Separated (push runs run) := by
  obtain ⟨appended, apart⟩ | ⟨front, last, rfl, merge, merged⟩ := push_cases runs run
  · rw [appended]
    exact List.isChain_append.mpr ⟨separated, List.isChain_singleton _, by simpa using apart⟩
  · obtain ⟨frontSeparated, -, across⟩ := List.isChain_append.mp separated
    rw [merged]
    refine List.isChain_append.mpr ⟨frontSeparated, List.isChain_singleton _, ?_⟩
    intro other isLast _ isMerged
    rw [List.head?_cons, Option.mem_some_iff] at isMerged
    -- Merging extends a run at its end only, so its left neighbour sees no difference.
    exact isMerged ▸ across other isLast last rfl

def pushAll (runs items : List (Run κ)) : List (Run κ) :=
  items.foldl push runs

theorem pushAll_covers (runs items : List (Run κ)) (position target : Nat) :
    Covers (pushAll runs items) position target ↔
      Covers runs position target ∨ Covers items position target := by
  induction items generalizing runs with
  | nil => simp [pushAll, Covers]
  | cons item items inductionHypothesis =>
    have step := inductionHypothesis (push runs item)
    rw [push_covers] at step
    simpa [pushAll, Covers, or_assoc] using step

theorem pushAll_exact (runs items : List (Run κ)) (start length : Nat) (payload : κ) :
    Exact (pushAll runs items) start length payload ↔
      Exact runs start length payload ∨ Exact items start length payload := by
  induction items generalizing runs with
  | nil => simp [pushAll, Exact]
  | cons item items inductionHypothesis =>
    have step := inductionHypothesis (push runs item)
    rw [push_exact] at step
    simpa [pushAll, Exact, or_assoc, eq_comm] using step

theorem pushAll_separated {runs : List (Run κ)} (items : List (Run κ)) (separated : Separated runs) :
    Separated (pushAll runs items) := by
  induction items generalizing runs with
  | nil => exact separated
  | cons item items inductionHypothesis => exact inductionHypothesis (push_separated separated)

theorem WellFormed.weaken {lower bound : Nat} {runs : List (Run κ)} (wellFormed : WellFormed lower runs)
    (less : lower ≤ bound) : WellFormed bound runs :=
  ⟨wellFormed.sorted, wellFormed.positive, fun run member => (wellFormed.bounded run member).trans less⟩

theorem pushAll_wellFormed {lower bound : Nat} {runs items : List (Run κ)}
    (wellFormed : WellFormed lower runs) (itemsWellFormed : WellFormed bound items) (less : lower ≤ bound)
    (after : ∀ item ∈ items, lower ≤ item.start) : WellFormed bound (pushAll runs items) := by
  induction items generalizing runs lower with
  | nil => exact wellFormed.weaken less
  | cons item items inductionHypothesis =>
    obtain ⟨first, rest⟩ := List.pairwise_cons.mp itemsWellFormed.sorted
    have pushed := push_wellFormed wellFormed (after item List.mem_cons_self)
      (itemsWellFormed.positive item List.mem_cons_self)
    exact inductionHypothesis pushed
      ⟨rest, fun run member => itemsWellFormed.positive run (List.mem_cons_of_mem _ member),
        fun run member => itemsWellFormed.bounded run (List.mem_cons_of_mem _ member)⟩
      (itemsWellFormed.bounded item List.mem_cons_self) first

/-! ## Restriction to a window -/

/-- The part of a run in `[lower, upper)`, moved so that the window starts at `base`.  A linear run
is cut to size; an atomic run is kept only when it lies in the window as a whole. -/
def clip (lower upper base : Nat) (run : Run κ) : Option (Run κ) :=
  if max run.start lower < min run.stop upper then
    match run.image with
    | .linear source =>
      some ⟨base + (max run.start lower - lower), min run.stop upper - max run.start lower,
        .linear (source + (max run.start lower - run.start))⟩
    | .atomic payload =>
      if lower ≤ run.start ∧ run.stop ≤ upper then
        some ⟨base + (run.start - lower), run.length, .atomic payload⟩
      else none
  else none

def window (runs : List (Run κ)) (lower upper base : Nat) : List (Run κ) :=
  runs.filterMap (clip lower upper base)

theorem clip_linear {lower upper base source : Nat} {run : Run κ} (image : run.image = .linear source)
    (nonempty : max run.start lower < min run.stop upper) :
    clip lower upper base run = some ⟨base + (max run.start lower - lower),
      min run.stop upper - max run.start lower, .linear (source + (max run.start lower - run.start))⟩ := by
  unfold clip
  rw [if_pos nonempty, image]

theorem clip_atomic {lower upper base start length : Nat} {payload : κ} (positive : 0 < length)
    (afterLower : lower ≤ start) (beforeUpper : start + length ≤ upper) :
    clip lower upper base ⟨start, length, .atomic payload⟩ =
      some ⟨base + (start - lower), length, .atomic payload⟩ := by
  have nonempty : max start lower < min (start + length) upper := by omega
  unfold clip
  exact (if_pos nonempty).trans (if_pos ⟨afterLower, beforeUpper⟩)

theorem clip_outside {lower upper base : Nat} {run : Run κ}
    (empty : min run.stop upper ≤ max run.start lower) : clip lower upper base run = none := by
  unfold clip
  exact if_neg (not_lt.mpr empty)

theorem clip_cut {lower upper base : Nat} {run : Run κ} {payload : κ} (image : run.image = .atomic payload)
    (cut : run.start < lower ∨ upper < run.stop) : clip lower upper base run = none := by
  unfold clip
  have partly : ¬ (lower ≤ run.start ∧ run.stop ≤ upper) := by omega
  simp only [image, if_neg partly, ite_self]

/-- What a clipped run says about its origin. -/
theorem clip_eq_some {lower upper base : Nat} {run clipped : Run κ}
    (kept : clip lower upper base run = some clipped) :
    max run.start lower < min run.stop upper ∧
      ((∃ source, run.image = .linear source ∧ clipped = ⟨base + (max run.start lower - lower),
          min run.stop upper - max run.start lower,
          .linear (source + (max run.start lower - run.start))⟩) ∨
        ∃ payload, run.image = .atomic payload ∧ lower ≤ run.start ∧ run.stop ≤ upper ∧
          clipped = ⟨base + (run.start - lower), run.length, .atomic payload⟩) := by
  unfold clip at kept
  split at kept
  next nonempty =>
    split at kept
    next source image => exact ⟨nonempty, .inl ⟨source, image, (Option.some.inj kept).symm⟩⟩
    next payload image =>
      split at kept
      next whole =>
        exact ⟨nonempty, .inr ⟨payload, image, whole.1, whole.2, (Option.some.inj kept).symm⟩⟩
      next partly => cases kept
  next empty => cases kept

theorem clip_bounds {lower upper base : Nat} {run clipped : Run κ}
    (kept : clip lower upper base run = some clipped) :
    clipped.start = base + (max run.start lower - lower) ∧
      clipped.stop = base + (min run.stop upper - lower) ∧ clipped.start < clipped.stop ∧
        max run.start lower < min run.stop upper := by
  obtain ⟨nonempty, ⟨source, -, rfl⟩ | ⟨payload, -, afterLower, beforeUpper, rfl⟩⟩ := clip_eq_some kept
  · refine ⟨rfl, ?_, ?_, nonempty⟩
    · simp only [Run.stop] at nonempty ⊢
      omega
    · simp only [Run.stop] at nonempty ⊢
      omega
  · rw [max_eq_left afterLower, min_eq_left beforeUpper] at nonempty ⊢
    simp only [Run.stop] at nonempty ⊢
    exact ⟨trivial, by omega, by omega, nonempty⟩

theorem window_wellFormed {bound : Nat} {runs : List (Run κ)} (wellFormed : WellFormed bound runs)
    (lower upper base : Nat) : WellFormed (base + (upper - lower)) (window runs lower upper base) := by
  refine ⟨?_, ?_, ?_⟩
  · rw [window, List.pairwise_filterMap]
    refine wellFormed.sorted.imp ?_
    intro left right before clippedLeft leftKept clippedRight rightKept
    have leftBounds := clip_bounds leftKept
    have rightBounds := clip_bounds rightKept
    omega
  · intro clipped member
    obtain ⟨run, -, kept⟩ := List.mem_filterMap.mp member
    have bounds := clip_bounds kept
    simp only [Run.stop] at bounds
    omega
  · intro clipped member
    obtain ⟨run, -, kept⟩ := List.mem_filterMap.mp member
    have bounds := clip_bounds kept
    omega

theorem window_start {runs : List (Run κ)} {lower upper base : Nat} :
    ∀ run ∈ window runs lower upper base, base ≤ run.start := by
  intro clipped member
  obtain ⟨run, -, kept⟩ := List.mem_filterMap.mp member
  have bounds := clip_bounds kept
  omega

theorem window_covers (runs : List (Run κ)) (lower upper base position target : Nat) :
    Covers (window runs lower upper base) position target ↔
      base ≤ position ∧ position < base + (upper - lower) ∧
        Covers runs (lower + (position - base)) target := by
  constructor
  · rintro ⟨clipped, member, source, image, inside⟩
    obtain ⟨run, runMember, kept⟩ := List.mem_filterMap.mp member
    obtain ⟨nonempty, ⟨runSource, runImage, rfl⟩ | ⟨payload, -, -, -, rfl⟩⟩ := clip_eq_some kept
    · cases image
      simp only [Run.stop] at inside nonempty
      refine ⟨by omega, by omega, run, runMember, runSource, runImage, ?_⟩
      simp only [Run.stop]
      omega
    · cases image
  · rintro ⟨afterBase, beforeEnd, run, member, source, image, inside⟩
    simp only [Run.stop] at inside
    have nonempty : max run.start lower < min run.stop upper := by
      simp only [Run.stop]
      omega
    have kept := @clip_linear κ lower upper base source run image nonempty
    refine ⟨_, List.mem_filterMap.mpr ⟨run, member, kept⟩, _, rfl, ?_⟩
    simp only [Run.stop] at nonempty ⊢
    omega

theorem window_exact {bound : Nat} {runs : List (Run κ)} (wellFormed : WellFormed bound runs)
    (lower upper base start length : Nat) (payload : κ) :
    Exact (window runs lower upper base) start length payload ↔
      base ≤ start ∧ start + length ≤ base + (upper - lower) ∧
        Exact runs (lower + (start - base)) length payload := by
  constructor
  · intro member
    obtain ⟨run, runMember, kept⟩ := List.mem_filterMap.mp member
    obtain ⟨nonempty, ⟨source, -, equal⟩ | ⟨other, image, afterLower, beforeUpper, equal⟩⟩ :=
      clip_eq_some kept
    · cases equal
    · obtain ⟨runStart, runLength, runImage⟩ := run
      cases image
      cases equal
      simp only [Run.stop] at afterLower beforeUpper nonempty ⊢
      refine ⟨by omega, by omega, ?_⟩
      rw [Exact, show lower + (base + (runStart - lower) - base) = runStart by omega]
      exact runMember
  · rintro ⟨afterBase, beforeEnd, member⟩
    have positive : 0 < length := wellFormed.positive _ member
    have kept := @clip_atomic κ lower upper base _ _ payload positive
      (Nat.le_add_right lower (start - base)) (show lower + (start - base) + length ≤ upper by omega)
    rw [show base + (lower + (start - base) - lower) = start by omega] at kept
    exact List.mem_filterMap.mpr ⟨_, member, kept⟩

/-! ## Covered ranges of separated runs -/

/-- Separated runs answer a linear range from a single run. -/
theorem exists_run_of_covers {bound : Nat} {runs : List (Run κ)} (wellFormed : WellFormed bound runs)
    (separated : Separated runs) {start length source : Nat} (positive : 0 < length)
    (covers : ∀ offset < length, Covers runs (start + offset) (source + offset)) :
    ∃ run ∈ runs, ∃ origin, run.image = .linear origin ∧ run.start ≤ start ∧
      start + length ≤ run.stop ∧ source = origin + (start - run.start) := by
  obtain ⟨run, member, origin, image, lower, upper, sourceEq⟩ := covers 0 positive
  by_cases within : start + length ≤ run.stop
  · exact ⟨run, member, origin, image, by omega, within, by omega⟩
  -- Otherwise the position behind the run is covered by a run that continues it.
  exfalso
  obtain ⟨next, nextMember, nextOrigin, nextImage, nextLower, nextUpper, nextEq⟩ :=
    covers (run.stop - start) (by omega)
  rw [show start + (run.stop - start) = run.stop by omega] at nextLower nextUpper nextEq
  obtain ⟨before, after, rfl⟩ := List.append_of_mem member
  obtain ⟨-, tailSorted, across⟩ := List.pairwise_append.mp wellFormed.sorted
  obtain ⟨first, afterSorted⟩ := List.pairwise_cons.mp tailSorted
  obtain ⟨-, tailSeparated, -⟩ := List.isChain_append.mp separated
  have runPositive := wellFormed.positive run member
  have nextAfter : next ∈ after := by
    rw [List.mem_append, List.mem_cons] at nextMember
    obtain inBefore | rfl | inAfter := nextMember
    · have := across next inBefore run List.mem_cons_self
      simp only [Run.stop] at *
      omega
    · omega
    · exact inAfter
  cases after with
  | nil => cases nextAfter
  | cons head tail =>
    have headStart := first head List.mem_cons_self
    cases nextAfter with
    | head =>
      have apart := (List.isChain_cons_cons.mp tailSeparated).1
      have merge : run.mergeable next = true :=
        Run.mergeable_iff.mpr ⟨origin, image, by rw [nextImage]; congr 1; simp only [Run.stop] at *; omega,
          le_antisymm headStart nextLower⟩
      rw [merge] at apart
      cases apart
    | tail _ inTail =>
      have headNext := (List.pairwise_cons.mp afterSorted).1 next inTail
      have headPositive := wellFormed.positive head (by simp)
      simp only [Run.stop] at *
      omega

end SqlParser.Library.RunMap
