import SqlParser.Core.Basic

/-! # Counters that tell when something has changed

An object carries a counter of a fixed width. A step advances the counter some number of times,
and a step that does not advance it leaves the contents as they are. As long as the counter has not
gone all the way round, two states with one count have the same contents.
-/

namespace SqlParser.Library.Versions

variable {Object Contents Step : Type*}

section advances

variable (version : Object → Nat) (contents : Object → Contents) (width : Nat)

/-- The counter is advanced `count` times, and the contents change only if it is advanced at all. -/
structure Advances (count : Nat) (before after : Object) : Prop where
  version_eq : version after = (version before + count) % width
  contents_eq : count = 0 → contents after = contents before

variable {version contents width}

theorem Advances.same {before after : Object} (bounded : version before < width) (counter : version after = version before)
    (kept : contents after = contents before) : Advances version contents width 0 before after :=
  ⟨by rw [counter, Nat.add_zero, Nat.mod_eq_of_lt bounded], fun _ => kept⟩

theorem Advances.once {before after : Object} {count : Nat} (counter : version after = (version before + (count + 1)) % width) :
    Advances version contents width (count + 1) before after :=
  ⟨counter, fun zero => nomatch zero⟩

theorem Advances.trans {first second third : Object} {count more : Nat} (left : Advances version contents width count first second)
    (right : Advances version contents width more second third) : Advances version contents width (count + more) first third where
  version_eq := by rw [right.version_eq, left.version_eq, Nat.mod_add_mod, Nat.add_assoc]
  contents_eq zero := by
    have none : count = 0 ∧ more = 0 := by omega
    rw [right.contents_eq none.2, left.contents_eq none.1]

theorem Advances.bounded {before after : Object} {count : Nat} (advances : Advances version contents width count before after)
    (positive : 0 < width) : version after < width := by
  rw [advances.version_eq]
  exact Nat.mod_lt _ positive

/-- Where the counter does not come round, it is the sum. -/
theorem Advances.version_eq_add {before after : Object} {count : Nat}
    (advances : Advances version contents width count before after) (short : version before + count < width) :
    version after = version before + count := by
  rw [advances.version_eq, Nat.mod_eq_of_lt short]

end advances

/-! ## Runs -/

section runs

variable (version : Object → Nat) (contents : Object → Contents) (width : Nat) (Sound : Object → Prop)
  (step : Step → Object → Object) (cost : Step → Nat)

/-- Every step from a sound object leads to a sound object and advances the counter at most as often as the step costs. -/
def StepsAdvance : Prop :=
  ∀ event before, Sound before →
    Sound (step event before) ∧ ∃ count ≤ cost event, Advances version contents width count before (step event before)

/-- The objects after the steps of a run. -/
def run (events : List Step) (start : Object) : Object :=
  events.foldl (fun object event => step event object) start

theorem run_append (front back : List Step) (start : Object) :
    run step (front ++ back) start = run step back (run step front start) :=
  List.foldl_append

variable {version contents width Sound step cost}

/-- A run adds up what its steps do. -/
theorem StepsAdvance.run (steps : StepsAdvance version contents width Sound step cost) {start : Object} (sound : Sound start)
    (bounded : version start < width) (events : List Step) :
    Sound (run step events start) ∧
      ∃ count ≤ (events.map cost).sum, Advances version contents width count start (run step events start) := by
  induction events generalizing start with
  | nil => exact ⟨sound, 0, Nat.le_refl _, Advances.same bounded rfl rfl⟩
  | cons event events inductionHypothesis =>
    obtain ⟨soundNext, count, affordable, advances⟩ := steps event start sound
    obtain ⟨soundEnd, more, affordableRest, advancesRest⟩ :=
      inductionHypothesis soundNext (advances.bounded (Nat.zero_lt_of_lt bounded))
    refine ⟨soundEnd, count + more, ?_, advances.trans advancesRest⟩
    rw [List.map_cons, List.sum_cons]
    exact Nat.add_le_add affordable affordableRest

end runs

end SqlParser.Library.Versions
