import Mathlib

/-! # Chains of separated spans

Spans of a linear order, some of them empty, are ordered by lying entirely
before one another.  An empty span needs room on both sides: it may not even
touch its neighbour.  Spans that are pairwise apart form a chain of this order,
so comparing a new span with its two neighbours compares it with all of them,
and the chain is determined by its elements.
-/

namespace SqlParser.Library.SpanChain

/-! ## Insertion into a sorted list -/

section Insertion

variable {ι : Type*} {before : ι → ι → Prop}

theorem pairwise_insert {left right : List ι} {item : ι}
    (transitive : ∀ b ∈ left ++ right, ∀ a c, before a b → before b c → before a c) (sorted : (left ++ right).Pairwise before)
    (leftBound : ∀ last ∈ left.getLast?, before last item)
    (rightBound : ∀ first ∈ right.head?, before item first) :
    (left ++ item :: right).Pairwise before := by
  rw [List.pairwise_append] at sorted ⊢
  obtain ⟨leftSorted, rightSorted, across⟩ := sorted
  have leftAll : ∀ other ∈ left, before other item := by
    intro other member
    obtain ⟨front, last, rfl⟩ := List.eq_nil_or_concat left |>.resolve_left (List.ne_nil_of_mem member)
    have lastBound := leftBound last (by simp)
    rw [List.concat_eq_append, List.mem_append, List.mem_singleton] at member
    obtain inFront | rfl := member
    · rw [List.concat_eq_append, List.pairwise_append] at leftSorted
      exact transitive last (by simp) _ _ (leftSorted.2.2 other inFront last (by simp)) lastBound
    · exact lastBound
  have rightAll : ∀ other ∈ right, before item other := by
    intro other member
    cases right with
    | nil => cases member
    | cons first rest =>
      have firstBound := rightBound first (by simp)
      cases member with
      | head => exact firstBound
      | tail _ member =>
        exact transitive first (by simp) _ _ firstBound
          ((List.pairwise_cons.mp rightSorted).1 other member)
  refine ⟨leftSorted, List.pairwise_cons.mpr ⟨rightAll, rightSorted⟩, ?_⟩
  intro one oneMember two twoMember
  cases twoMember with
  | head => exact leftAll one oneMember
  | tail _ twoMember => exact across one oneMember two twoMember

/-- A sorted list of a strict order is determined by its elements. -/
theorem eq_of_perm {left right : List ι}
    (asymmetric : ∀ a ∈ left, ∀ b ∈ right, before a b → ¬ before b a)
    (leftSorted : left.Pairwise before) (rightSorted : right.Pairwise before)
    (perm : left.Perm right) : left = right :=
  perm.eq_of_pairwise (fun a b inLeft inRight one two =>
    absurd two (asymmetric a inLeft b inRight one)) leftSorted rightSorted

end Insertion

/-! ## The order on spans -/

section Spans

variable {α : Type*} [LinearOrder α]

structure Span (α : Type*) where
  start : α
  stop : α

def Span.Proper (span : Span α) : Prop :=
  span.start ≤ span.stop

/-- One span ends before the other starts; an empty span also keeps a distance. -/
def Before (left right : Span α) : Prop :=
  left.stop ≤ right.start ∧
    (left.start = left.stop ∨ right.start = right.stop → left.stop < right.start)

/-- A span touches an empty one when the closed spans meet, any other when the open ones do. -/
def Overlap (left right : Span α) : Prop :=
  if left.start = left.stop ∨ right.start = right.stop then
    left.start ≤ right.stop ∧ right.start ≤ left.stop
  else
    left.start < right.stop ∧ right.start < left.stop

theorem Before.trans {one two three : Span α} (proper : two.Proper)
    (first : Before one two) (second : Before two three) : Before one three := by
  refine ⟨first.1.trans (proper.trans second.1), ?_⟩
  rintro (empty | empty)
  · exact (first.2 (.inl empty)).trans_le (proper.trans second.1)
  · exact (first.1.trans proper).trans_lt (second.2 (.inr empty))

theorem Before.asymm {left right : Span α} (leftProper : left.Proper) (rightProper : right.Proper)
    (first : Before left right) : ¬ Before right left := by
  intro second
  have leftEmpty : left.start = left.stop :=
    le_antisymm leftProper (first.1.trans (rightProper.trans second.1))
  have strict := first.2 (.inl leftEmpty)
  exact absurd (rightProper.trans second.1) (not_le.mpr (leftEmpty ▸ strict))

theorem Before.start_lt {left right : Span α} (proper : left.Proper) (first : Before left right) :
    left.start < right.start := by
  by_cases empty : left.start = left.stop
  · exact empty ▸ first.2 (.inl empty)
  · exact (lt_of_le_of_ne proper empty).trans_le first.1

/-- Spans are apart exactly when one of them lies before the other. -/
theorem not_overlap_iff {left right : Span α} :
    ¬ Overlap left right ↔ Before left right ∨ Before right left := by
  unfold Overlap Before
  split
  next empty =>
    have emptySwap := empty.symm
    simp only [empty, emptySwap, true_imp_iff, not_and_or, not_le]
    constructor
    · rintro (less | less)
      · exact .inr ⟨less.le, less⟩
      · exact .inl ⟨less.le, less⟩
    · rintro (⟨_, less⟩ | ⟨_, less⟩)
      · exact .inr less
      · exact .inl less
  next nonempty =>
    have nonemptySwap : ¬ (right.start = right.stop ∨ left.start = left.stop) :=
      fun swapped => nonempty swapped.symm
    simp only [nonempty, nonemptySwap, false_imp_iff, and_true, not_and_or, not_lt]
    exact or_comm

theorem Overlap.symm {left right : Span α} (overlap : Overlap left right) : Overlap right left := by
  unfold Overlap at *
  simp only [or_comm (a := right.start = right.stop)]
  split at overlap
  · rwa [if_pos ‹_›, and_comm]
  · rwa [if_neg ‹_›, and_comm]

/-- Starts decide on which side of a new span its apart neighbour lies. -/
theorem before_of_start_lt {left right : Span α} (rightProper : right.Proper)
    (apart : Before left right ∨ Before right left) (less : left.start < right.start) :
    Before left right := by
  obtain first | second := apart
  · exact first
  · exact absurd (rightProper.trans second.1) (not_le.mpr less)

theorem before_of_start_le {left right : Span α}
    (rightProper : right.Proper) (apart : Before left right ∨ Before right left)
    (lessEqual : left.start ≤ right.start) : Before left right := by
  obtain first | second := apart
  · exact first
  · exact absurd lessEqual (not_le.mpr (second.start_lt rightProper))

end Spans

end SqlParser.Library.SpanChain
