import Mathlib

/-! # Numbering names

Requests are numbered one after another: a name is given the number that it has or else the next
one, and a request without a name is always given the next one.
-/

namespace SqlParser.Library.Numbering

variable {Name : Type*} [DecidableEq Name]

/-- The number of a name in a list of names, and the list with the name in it. -/
def numberName (names : List Name) (name : Name) : List Name × Nat :=
  match names.findIdx? (· = name) with
  | some index => (names, index + 1)
  | none => (names ++ [name], names.length + 1)

/-- The number of a request; the requests without a name are listed under a label. -/
def number (label : Name) (names : List Name) : Option Name → List Name × Nat
  | some name => numberName names name
  | none => (names ++ [label], names.length + 1)

def numbers (label : Name) : List Name → List (Option Name) → List Nat
  | _, [] => []
  | names, request :: requests =>
    (number label names request).2 :: numbers label (number label names request).1 requests

/-- The request has been given its number. -/
def Numbered (label : Name) (names : List Name) (request : Option Name) (given : Nat) : Prop :=
  ∃ index, given = index + 1 ∧
    match request with
    | some name => names.findIdx? (· = name) = some index
    | none => names[index]? = some label

section numbered

variable {label : Name} {names : List Name} {request : Option Name} {given : Nat}

theorem Numbered.bound (numbered : Numbered label names request given) : given ≤ names.length := by
  obtain ⟨index, rfl, found⟩ := numbered
  cases request with
  | some name =>
    obtain ⟨bound, -, -⟩ := List.findIdx?_eq_some_iff_getElem.mp found
    exact bound
  | none =>
    obtain ⟨bound, -⟩ := List.getElem?_eq_some_iff.mp found
    exact bound

theorem Numbered.append (numbered : Numbered label names request given) (name : Name) :
    Numbered label (names ++ [name]) request given := by
  have bound := numbered.bound
  obtain ⟨index, rfl, found⟩ := numbered
  refine ⟨index, rfl, ?_⟩
  cases request with
  | some given =>
    dsimp only at found ⊢
    rw [List.findIdx?_append, found]
    rfl
  | none =>
    dsimp only at found ⊢
    rw [List.getElem?_append_left bound, found]

theorem Numbered.number (numbered : Numbered label names request given) (next : Option Name) :
    Numbered label (number label names next).1 request given := by
  cases next with
  | none => exact numbered.append label
  | some name =>
    unfold Numbering.number numberName
    dsimp only
    split
    next => exact numbered
    next => exact numbered.append name

theorem number_numbered (label : Name) (names : List Name) (request : Option Name) :
    Numbered label (number label names request).1 request (number label names request).2 := by
  cases request with
  | none => exact ⟨names.length, rfl, List.getElem?_concat_length⟩
  | some name =>
    unfold Numbering.number numberName
    dsimp only
    split
    next index found => exact ⟨index, rfl, found⟩
    next absent =>
      refine ⟨names.length, rfl, ?_⟩
      dsimp only
      rw [List.findIdx?_append, absent]
      simp

/-- The number of the next request is the one of an earlier request exactly if both have the same name. -/
theorem Numbered.same_iff (numbered : Numbered label names request given) (next : Option Name)
    (requestApart : request ≠ some label) (nextApart : next ≠ some label) :
    given = (Numbering.number label names next).2 ↔ request ≠ none ∧ request = next := by
  have bound := numbered.bound
  cases next with
  | none =>
    have later : (Numbering.number label names none).2 = names.length + 1 := rfl
    rw [later]
    constructor
    · intro same
      omega
    · rintro ⟨named, unnamed⟩
      exact absurd unnamed named
  | some name =>
    unfold Numbering.number numberName
    dsimp only
    obtain ⟨index, rfl, found⟩ := numbered
    split
    next position located =>
      rw [Nat.add_right_cancel_iff]
      obtain ⟨inside, isName, -⟩ := List.findIdx?_eq_some_iff_getElem.mp located
      cases request with
      | some earlier =>
        dsimp only at found
        constructor
        · rintro rfl
          obtain ⟨_, isEarlier, -⟩ := List.findIdx?_eq_some_iff_getElem.mp found
          have same : earlier = name := (of_decide_eq_true isEarlier).symm.trans (of_decide_eq_true isName)
          exact ⟨Option.some_ne_none earlier, congrArg some same⟩
        · rintro ⟨-, same⟩
          cases same
          exact Option.some.inj (found.symm.trans located)
      | none =>
        dsimp only at found
        constructor
        · rintro rfl
          obtain ⟨_, isLabel⟩ := List.getElem?_eq_some_iff.mp found
          exact absurd (congrArg some ((of_decide_eq_true isName).symm.trans isLabel)) nextApart
        · rintro ⟨named, -⟩
          exact absurd rfl named
    next absent =>
      constructor
      · intro same
        omega
      · rintro ⟨-, rfl⟩
        exact absurd (absent.symm.trans found) (Option.some_ne_none index).symm

theorem Numbered.later (numbered : Numbered label names request given) (requests : List (Option Name))
    (requestApart : request ≠ some label) (apart : some label ∉ requests) :
    ∀ later ∈ requests.zip (numbers label names requests),
      given = later.2 ↔ request ≠ none ∧ request = later.1 := by
  induction requests generalizing names with
  | nil => exact fun _ listed => nomatch listed
  | cons next requests inductionHypothesis =>
    intro later listed
    rw [numbers, List.zip_cons_cons] at listed
    cases listed with
    | head => exact numbered.same_iff next requestApart fun same => apart (same ▸ .head _)
    | tail _ listed =>
      exact inductionHypothesis (numbered.number next) (fun member => apart (.tail _ member)) later listed

end numbered

/-- Two requests are given the same number exactly if they have the same name. -/
theorem numbers_pairwise (label : Name) (names : List Name) (requests : List (Option Name))
    (apart : some label ∉ requests) :
    (requests.zip (numbers label names requests)).Pairwise fun earlier later =>
      earlier.2 = later.2 ↔ earlier.1 ≠ none ∧ earlier.1 = later.1 := by
  induction requests generalizing names with
  | nil => exact .nil
  | cons request requests inductionHypothesis =>
    rw [numbers, List.zip_cons_cons]
    have apartBehind : some label ∉ requests := fun member => apart (.tail _ member)
    have requestApart : request ≠ some label := fun same => apart (same ▸ .head _)
    refine .cons ?_ (inductionHypothesis _ apartBehind)
    exact (number_numbered label names request).later requests requestApart apartBehind

theorem numbers_length (label : Name) (names : List Name) (requests : List (Option Name)) :
    (numbers label names requests).length = requests.length := by
  induction requests generalizing names with
  | nil => rfl
  | cons request requests inductionHypothesis => exact congrArg (· + 1) (inductionHypothesis _)

/-! ## The listed names -/

/-- The names that are listed when the requests are numbered. -/
def listed (label : Name) : List Name → List (Option Name) → List Name
  | names, [] => names
  | names, request :: requests => listed label (number label names request).1 requests

section listed

variable {label : Name} {names : List Name} {requests : List (Option Name)}

theorem number_extends (label : Name) (names : List Name) (request : Option Name) :
    names <+: (number label names request).1 := by
  cases request with
  | none => exact List.prefix_append ..
  | some name =>
    unfold number numberName
    dsimp only
    split
    next => exact List.prefix_rfl
    next => exact List.prefix_append ..

theorem number_length_le (label : Name) (names : List Name) (request : Option Name) :
    (number label names request).1.length ≤ names.length + 1 := by
  cases request with
  | none => simp [number]
  | some name =>
    unfold number numberName
    dsimp only
    split
    next => exact Nat.le_succ _
    next => simp

theorem listed_extends (label : Name) (names : List Name) (requests : List (Option Name)) :
    names <+: listed label names requests := by
  induction requests generalizing names with
  | nil => exact List.prefix_rfl
  | cons request requests inductionHypothesis => exact (number_extends label names request).trans (inductionHypothesis _)

/-- The name of a request is listed at its number. -/
theorem Numbered.getElem?_eq {request : Option Name} {given : Nat} (numbered : Numbered label names request given) :
    0 < given ∧ names[given - 1]? = some (request.getD label) := by
  obtain ⟨index, rfl, found⟩ := numbered
  refine ⟨Nat.succ_pos _, ?_⟩
  cases request with
  | none => exact found
  | some name =>
    obtain ⟨bound, same, -⟩ := List.findIdx?_eq_some_iff_getElem.mp found
    exact List.getElem?_eq_some_iff.mpr ⟨bound, of_decide_eq_true same⟩

theorem listed_numbers (label : Name) (names : List Name) (requests : List (Option Name)) :
    ∀ pair ∈ requests.zip (numbers label names requests),
      0 < pair.2 ∧ (listed label names requests)[pair.2 - 1]? = some (pair.1.getD label) := by
  induction requests generalizing names with
  | nil => exact fun _ member => nomatch member
  | cons request requests inductionHypothesis =>
    intro pair member
    rw [numbers, List.zip_cons_cons] at member
    cases member with
    | head =>
      obtain ⟨positive, found⟩ := (number_numbered label names request).getElem?_eq
      obtain ⟨rest, split⟩ := listed_extends label (number label names request).1 requests
      obtain ⟨inside, -⟩ := List.getElem?_eq_some_iff.mp found
      exact ⟨positive, by rw [listed, ← split, List.getElem?_append_left inside, found]⟩
    | tail _ member => exact inductionHypothesis _ pair member

/-- Every number behind the ones that are there is given. -/
theorem numbers_cover {given : Nat} (behind : names.length < given) (bound : given ≤ (listed label names requests).length) :
    given ∈ numbers label names requests := by
  induction requests generalizing names with
  | nil => exact absurd bound (Nat.not_le.mpr behind)
  | cons request requests inductionHypothesis =>
    rw [numbers]
    by_cases later : (number label names request).1.length < given
    · exact List.mem_cons_of_mem _ (inductionHypothesis later bound)
    · have grown := number_length_le label names request
      have isNext : given = (number label names request).2 := by
        cases request with
        | none =>
          have : (number label names none).2 = names.length + 1 := rfl
          omega
        | some name =>
          unfold number numberName at later grown ⊢
          dsimp only at later grown ⊢
          split at later
          next index found =>
            dsimp only at later
            omega
          next absent =>
            simp only [List.length_append, List.length_singleton] at later
            dsimp only
            omega
      exact isNext ▸ List.mem_cons_self

theorem numbers_unnamed (label : Name) (names : List Name) (requests : List (Option Name)) :
    ∀ pair ∈ requests.zip (numbers label names requests), pair.1 = none → names.length < pair.2 := by
  induction requests generalizing names with
  | nil => exact fun _ member => nomatch member
  | cons request requests inductionHypothesis =>
    intro pair member unnamed
    rw [numbers, List.zip_cons_cons] at member
    cases member with
    | head =>
      cases unnamed
      exact Nat.lt_succ_self _
    | tail _ member =>
      have longer := (number_extends label names request).length_le
      exact longer.trans_lt (inductionHypothesis _ pair member unnamed)

/-- A request without a name is given a number behind all earlier ones. -/
theorem numbers_unnamed_later (label : Name) (names : List Name) (requests : List (Option Name)) :
    (requests.zip (numbers label names requests)).Pairwise fun earlier later => later.1 = none → earlier.2 < later.2 := by
  induction requests generalizing names with
  | nil => exact .nil
  | cons request requests inductionHypothesis =>
    rw [numbers, List.zip_cons_cons]
    refine .cons ?_ (inductionHypothesis _)
    intro later member unnamed
    exact (number_numbered label names request).bound.trans_lt (numbers_unnamed label _ requests later member unnamed)

end listed

end SqlParser.Library.Numbering
