import SqlParser.Core.SemanticComments
import SqlParser.Library.Splice

/-! # Where the semantic comments go

Each comment of the source is inserted at the gap that its neighbours single out, and nothing else of
the output changes.
-/

namespace SqlParser.Core.Semantic

open SqlParser.Library.UniqueMatch
open SqlParser.Library.Splice (Edit Ordered splice)

/-! ## The order of the tokens -/

/-- What `sqlparser_semantic_token_compare_value` compares of a token. -/
def tokenKey (token : SemanticToken) : Nat × Nat × Nat × Bool × Text :=
  (token.token, token.keywordKind,
    if token.keywordKind ≠ noKeyword then (0, false, [])
    else (token.word.length, isAsciiWord token.word, if isAsciiWord token.word then token.word.map toLower else token.word))

/-- The keys in the order in which their members are compared. -/
def compareKeys : Nat × Nat × Nat × Bool × Text → Nat × Nat × Nat × Bool × Text → Ordering :=
  compareLex (compareOn fun key => key.1)
    (compareLex (compareOn fun key => key.2.1)
      (compareLex (compareOn fun key => key.2.2.1)
        (compareLex (compareOn fun key => key.2.2.2.1) (compareOn fun key => key.2.2.2.2))))

instance : Std.TransCmp compareKeys :=
  inferInstanceAs (Std.TransCmp (compareLex _ _))

theorem then_congr {first second third : Ordering} (same : first = .eq → second = third) : first.then second = first.then third := by
  cases first with
  | eq => exact same rfl
  | lt => rfl
  | gt => rfl

theorem compareTokens_eq (left right : SemanticToken) : compareTokens left right = compareKeys (tokenKey left) (tokenKey right) := by
  unfold compareTokens compareKeys tokenKey compareLex compareOn
  refine then_congr fun _ => then_congr fun sameKind => ?_
  rw [Nat.compare_eq_eq] at sameKind
  rw [sameKind]
  split
  · rfl
  · refine then_congr fun _ => then_congr fun sameWord => ?_
    rw [compare_eq_iff_eq] at sameWord
    dsimp only
    rw [sameWord]
    split <;> rfl

instance : Std.TransCmp compareTokens := by
  have trans := @trans_on _ compareKeys _ _ tokenKey
  rwa [show compareTokens = fun left right => compareKeys (tokenKey left) (tokenKey right) from
    funext fun left => funext fun right => compareTokens_eq left right]

instance : Std.TransCmp compareGaps :=
  let _ := @trans_on _ compareTokens _ _ SemanticGap.previous
  let _ := @trans_on _ compareTokens _ _ SemanticGap.next
  inferInstanceAs (Std.TransCmp (compareLex (fun left right : SemanticGap => compareTokens left.previous right.previous)
    fun left right => compareTokens left.next right.next))

/-! ## Gaps -/

/-- The gap of the output that a gap of the source singles out: the same one within what the texts
begin or end with alike; else the only one between the same neighbours; else the one in front of the
only token like the next; else the one behind the only token like the previous. -/
inductive Settles (alignment : Alignment) (gap : Nat) : Nat → Prop
  | front : gap ≤ alignment.front → Settles alignment gap gap
  | back : alignment.front < gap → alignment.source.length - alignment.back ≤ gap →
    Settles alignment gap (alignment.output.length - (alignment.source.length - gap))
  | between {previous anchor : SemanticToken} {found : SemanticGap} : alignment.front < gap →
    gap < alignment.source.length - alignment.back → alignment.source[gap - 1]? = some previous →
    alignment.source[gap]? = some anchor →
    alignment.gaps.filter (fun other => compareGaps other ⟨previous, anchor, gap⟩ = .eq) = [found] → Settles alignment gap found.gap
  | before {previous anchor token : SemanticToken} : alignment.front < gap →
    gap < alignment.source.length - alignment.back → alignment.source[gap - 1]? = some previous →
    alignment.source[gap]? = some anchor →
    (∀ found, alignment.gaps.filter (fun other => compareGaps other ⟨previous, anchor, gap⟩ = .eq) ≠ [found]) →
    alignment.middle.filter (fun other => compareTokens other anchor = .eq) = [token] → Settles alignment gap token.ordinal
  | behind {previous anchor token : SemanticToken} : alignment.front < gap →
    gap < alignment.source.length - alignment.back → alignment.source[gap - 1]? = some previous →
    alignment.source[gap]? = some anchor →
    (∀ found, alignment.gaps.filter (fun other => compareGaps other ⟨previous, anchor, gap⟩ = .eq) ≠ [found]) →
    (∀ found, alignment.middle.filter (fun other => compareTokens other anchor = .eq) ≠ [found]) →
    alignment.middle.filter (fun other => compareTokens other previous = .eq) = [token] → Settles alignment gap (token.ordinal + 1)

/-- The sorts order the tokens and the gaps by their comparisons. -/
structure SemanticSort.Sorted (qsort : SemanticSort) : Prop where
  tokens : Sorts compareTokens qsort.tokens
  gaps : Sorts compareGaps qsort.gaps

section sorted

variable {qsort : SemanticSort}

theorem searchTokens_iff (sorted : qsort.Sorted) (tokens : List SemanticToken) (target token : SemanticToken) :
    search (compareTokens · target) (qsort.tokens tokens) = some token ↔
      tokens.filter (fun other => compareTokens other target = .eq) = [token] :=
  search_iff sorted.tokens tokens target token

theorem searchGaps_iff (sorted : qsort.Sorted) (gaps : List SemanticGap) (target gap : SemanticGap) :
    search (compareGaps · target) (qsort.gaps gaps) = some gap ↔
      gaps.filter (fun other => compareGaps other target = .eq) = [gap] :=
  search_iff sorted.gaps gaps target gap

/-- The searches in the sorted lists find the gap that is singled out. -/
theorem outputGap_iff (sorted : qsort.Sorted) (alignment : Alignment) (gap found : Nat) :
    outputGap qsort alignment gap = some found ↔ Settles alignment gap found := by
  unfold outputGap
  constructor
  · intro placed
    split at placed
    next inFront =>
      cases placed
      exact .front inFront
    next notFront =>
      split at placed
      next inBack =>
        cases placed
        exact .back (Nat.lt_of_not_le notFront) inBack
      next notBack =>
        split at placed
        next previous anchor isPrevious isAnchor =>
          rw [Option.orElse_eq_some, Option.orElse_eq_some] at placed
          rcases placed with isGap | ⟨noGap, isBefore | ⟨noAnchor, isBehind⟩⟩
          · obtain ⟨gap, isFound, rfl⟩ := Option.map_eq_some_iff.mp isGap
            exact .between (Nat.lt_of_not_le notFront) (Nat.lt_of_not_le notBack) isPrevious isAnchor
              ((searchGaps_iff sorted _ _ _).mp isFound)
          · obtain ⟨token, isFound, rfl⟩ := Option.map_eq_some_iff.mp isBefore
            refine .before (Nat.lt_of_not_le notFront) (Nat.lt_of_not_le notBack) isPrevious isAnchor (fun found single => ?_)
              ((searchTokens_iff sorted _ _ _).mp isFound)
            rw [(searchGaps_iff sorted _ _ _).mpr single] at noGap
            cases noGap
          · obtain ⟨token, isFound, rfl⟩ := Option.map_eq_some_iff.mp isBehind
            refine .behind (Nat.lt_of_not_le notFront) (Nat.lt_of_not_le notBack) isPrevious isAnchor (fun found single => ?_)
              (fun found single => ?_) ((searchTokens_iff sorted _ _ _).mp isFound)
            · rw [(searchGaps_iff sorted _ _ _).mpr single] at noGap
              cases noGap
            · rw [(searchTokens_iff sorted _ _ _).mpr single] at noAnchor
              cases noAnchor
        · cases placed
  · intro settles
    cases settles with
    | front inFront => exact if_pos inFront
    | back notFront inBack => rw [if_neg (Nat.not_le_of_lt notFront), if_pos inBack]
    | between notFront notBack isPrevious isAnchor single =>
      rw [if_neg (Nat.not_le_of_lt notFront), if_neg (Nat.not_le_of_lt notBack), isPrevious, isAnchor]
      dsimp only
      rw [(searchGaps_iff sorted _ _ _).mpr single]
      rfl
    | @before previous anchor _ notFront notBack isPrevious isAnchor noGap single =>
      have unfound : search (compareGaps · ⟨previous, anchor, gap⟩) (qsort.gaps alignment.gaps) = none :=
        Option.eq_none_iff_forall_ne_some.mpr fun found isFound => noGap found ((searchGaps_iff sorted _ _ _).mp isFound)
      rw [if_neg (Nat.not_le_of_lt notFront), if_neg (Nat.not_le_of_lt notBack), isPrevious, isAnchor]
      dsimp only
      rw [unfound, (searchTokens_iff sorted _ _ _).mpr single]
      rfl
    | @behind previous anchor _ notFront notBack isPrevious isAnchor noGap noAnchor single =>
      have unfound : search (compareGaps · ⟨previous, anchor, gap⟩) (qsort.gaps alignment.gaps) = none :=
        Option.eq_none_iff_forall_ne_some.mpr fun found isFound => noGap found ((searchGaps_iff sorted _ _ _).mp isFound)
      have unmatched : search (compareTokens · anchor) (qsort.tokens alignment.middle) = none :=
        Option.eq_none_iff_forall_ne_some.mpr fun found isFound => noAnchor found ((searchTokens_iff sorted _ _ _).mp isFound)
      rw [if_neg (Nat.not_le_of_lt notFront), if_neg (Nat.not_le_of_lt notBack), isPrevious, isAnchor]
      dsimp only
      rw [unfound, unmatched, (searchTokens_iff sorted _ _ _).mpr single]
      rfl

end sorted

/-! ## Placing -/

/-- A comment at its place in the output. -/
structure Placed (qsort : SemanticSort) (alignment : Alignment) (source : Text) (length : Nat) (comment : SourceComment)
    (placed : PlacedComment) : Prop where
  gap : outputGap qsort alignment comment.gap = some placed.gap
  position : gapPosition alignment.output length placed.gap = some (placed.position, placed.hasPrevious, placed.hasNext)
  text : placed.text = slice source comment.start comment.stop
  lineBreak : placed.lineBreak = lineBreakAt source comment.stop

/-- The loop places every comment, in an order of gaps and positions that does not decrease, or it fails. -/
theorem placeComments_iff {qsort : SemanticSort} {alignment : Alignment} {source : Text} {length lastGap lastPosition : Nat}
    {comments : List SourceComment} {placed : List PlacedComment} :
    placeComments qsort alignment source length lastGap lastPosition comments = .ok placed ↔
      List.Forall₂ (Placed qsort alignment source length) comments placed ∧
        (lastGap :: placed.map PlacedComment.gap).IsChain (· ≤ ·) ∧
        (lastPosition :: placed.map PlacedComment.position).IsChain (· ≤ ·) := by
  induction comments generalizing lastGap lastPosition placed with
  | nil =>
    constructor
    · intro done
      cases done
      exact ⟨.nil, .singleton _, .singleton _⟩
    · rintro ⟨placements, -, -⟩
      cases placements
      rfl
  | cons comment comments inductionHypothesis =>
    rw [placeComments]
    constructor
    · intro done
      split at done
      · cases done
      next gap isGap =>
        split at done
        · cases done
        next later =>
          split at done
          · cases done
          next position hasPrevious hasNext isPosition =>
            split at done
            · cases done
            next behind =>
              obtain ⟨rest, isRest, rfl⟩ := ok_of_map done
              obtain ⟨placements, gaps, positions⟩ := inductionHypothesis.mp isRest
              exact ⟨.cons ⟨isGap, isPosition, rfl, rfl⟩ placements, .cons_cons (Nat.le_of_not_lt later) gaps,
                .cons_cons (Nat.le_of_not_lt behind) positions⟩
    · rintro ⟨placements, gaps, positions⟩
      cases placements with
      | @cons _ first _ rest placement placements =>
        obtain ⟨later, gaps⟩ := List.isChain_cons_cons.mp gaps
        obtain ⟨behind, positions⟩ := List.isChain_cons_cons.mp positions
        rw [placement.gap]
        dsimp only
        rw [if_neg (Nat.not_lt_of_le later), placement.position]
        dsimp only
        rw [if_neg (Nat.not_lt_of_le behind), inductionHypothesis.mpr ⟨placements, gaps, positions⟩, ← placement.text,
          ← placement.lineBreak]
        rfl

end SqlParser.Core.Semantic
