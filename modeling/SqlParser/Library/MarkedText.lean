import SqlParser.Library.Splice

/-! # Texts with marked spans

A text is a list of pieces, each a gap and the body that is marked behind it.  Edits that replace
whole bodies are followed piece by piece, without a position in the new text.
-/

namespace SqlParser.Library.MarkedText

open SqlParser.Library.Splice

variable {α : Type*}

structure Piece (α : Type*) where
  gap : List α
  body : List α

def Piece.spell (piece : Piece α) : List α :=
  piece.gap ++ piece.body

def spell (pieces : List (Piece α)) : List α :=
  (pieces.map Piece.spell).flatten

/-- Where the bodies start. -/
def starts : Nat → List (Piece α) → List Nat
  | _, [] => []
  | cursor, piece :: pieces => (cursor + piece.gap.length) :: starts (cursor + piece.spell.length) pieces

/-- The edits, which stand in text order, give some of the pieces a new body. -/
inductive Revises : Nat → List (Piece α) → List (Edit α) → List (Piece α) → Prop
  | nil {cursor : Nat} : Revises cursor [] [] []
  | keep {cursor : Nat} {piece : Piece α} {pieces revised : List (Piece α)} {edits : List (Edit α)}
      (rest : Revises (cursor + piece.spell.length) pieces edits revised) :
      Revises cursor (piece :: pieces) edits (piece :: revised)
  | revise {cursor : Nat} {gap body replacement : List α} {pieces revised : List (Piece α)} {edits : List (Edit α)}
      (marked : body ≠ []) (rest : Revises (cursor + (gap ++ body).length) pieces edits revised) :
      Revises cursor (⟨gap, body⟩ :: pieces)
        (⟨cursor + gap.length, cursor + (gap ++ body).length, replacement⟩ :: edits) (⟨gap, replacement⟩ :: revised)

@[simp] theorem spell_nil : spell ([] : List (Piece α)) = [] := rfl

@[simp] theorem spell_cons (piece : Piece α) (pieces : List (Piece α)) :
    spell (piece :: pieces) = piece.spell ++ spell pieces := rfl

theorem Piece.spell_length (piece : Piece α) : piece.spell.length = piece.gap.length + piece.body.length :=
  List.length_append

@[simp] theorem starts_length (cursor : Nat) (pieces : List (Piece α)) :
    (starts cursor pieces).length = pieces.length := by
  induction pieces generalizing cursor with
  | nil => rfl
  | cons piece pieces inductionHypothesis => simp [starts, inductionHypothesis]

section Revises

variable {cursor : Nat} {pieces revised : List (Piece α)} {edits : List (Edit α)}

theorem Revises.length (revises : Revises cursor pieces edits revised) : revised.length = pieces.length := by
  induction revises with
  | nil => rfl
  | keep rest inductionHypothesis => simp [inductionHypothesis]
  | revise marked rest inductionHypothesis => simp [inductionHypothesis]

theorem Revises.start_ge (revises : Revises cursor pieces edits revised) {edit : Edit α} (member : edit ∈ edits) :
    cursor ≤ edit.start := by
  induction revises with
  | nil => cases member
  | keep rest inductionHypothesis =>
    have := inductionHypothesis member
    omega
  | revise marked rest inductionHypothesis =>
    cases member with
    | head => exact Nat.le_add_right ..
    | tail _ member =>
      have := inductionHypothesis member
      omega

theorem Revises.start_lt_stop (revises : Revises cursor pieces edits revised) {edit : Edit α} (member : edit ∈ edits) :
    edit.start < edit.stop := by
  induction revises with
  | nil => cases member
  | keep rest inductionHypothesis => exact inductionHypothesis member
  | @revise _ gap body _ _ _ _ marked rest inductionHypothesis =>
    cases member with
    | head =>
      have := List.length_pos_of_ne_nil marked
      simp only [List.length_append]
      omega
    | tail _ member => exact inductionHypothesis member

theorem Revises.stop_le (revises : Revises cursor pieces edits revised) {edit : Edit α} (member : edit ∈ edits) :
    edit.stop ≤ cursor + (spell pieces).length := by
  induction revises with
  | nil => cases member
  | keep rest inductionHypothesis =>
    have := inductionHypothesis member
    rw [spell_cons, List.length_append]
    omega
  | @revise _ gap body _ pieces _ _ marked rest inductionHypothesis =>
    have spelled : spell (⟨gap, body⟩ :: pieces) = gap ++ body ++ spell pieces := rfl
    rw [spelled, List.length_append]
    cases member with
    | head => exact Nat.add_le_add_left (Nat.le_add_right ..) _
    | tail _ member =>
      have := inductionHypothesis member
      omega

/-- A text in front of all edits is copied. -/
theorem splice_copied (text : List α) {cursor stop : Nat} (edits : List (Edit α)) (less : cursor ≤ stop)
    (later : ∀ edit ∈ edits, stop ≤ edit.start) :
    splice text cursor edits = (text.take stop).drop cursor ++ splice text stop edits := by
  cases edits with
  | nil =>
    have split : text.take stop ++ text.drop stop = text := List.take_append_drop ..
    rcases Nat.le_total stop text.length with inside | behind
    · have bound : cursor ≤ (text.take stop).length := by rw [List.length_take]; omega
      rw [splice, splice, ← List.drop_append_of_le_length bound, split]
    · rw [splice, splice, List.take_of_length_le behind, List.drop_eq_nil_of_le behind, List.append_nil]
  | cons edit edits =>
    have bound := later edit List.mem_cons_self
    have parts : (text.take edit.start).drop cursor = (text.take stop).drop cursor ++ (text.take edit.start).drop stop := by
      rw [List.drop_take, List.drop_take, List.drop_take, show edit.start - cursor = stop - cursor + (edit.start - stop) by omega,
        List.take_add, List.drop_drop, show cursor + (stop - cursor) = stop by omega]
    rw [splice, splice, parts, List.append_assoc, List.append_assoc, List.append_assoc]

/-- The spliced text is the text of the revised pieces. -/
theorem Revises.splice_eq (revises : Revises cursor pieces edits revised) {text tail : List α}
    (spelled : text.drop cursor = spell pieces ++ tail) : splice text cursor edits = spell revised ++ tail := by
  induction revises with
  | nil => exact spelled
  | @keep cursor piece pieces revised edits rest inductionHypothesis =>
    have front : (text.take (cursor + piece.spell.length)).drop cursor = piece.spell := by
      rw [List.drop_take, spelled, Nat.add_sub_cancel_left, spell_cons, List.append_assoc, List.take_left']
      rfl
    have behind : text.drop (cursor + piece.spell.length) = spell pieces ++ tail := by
      rw [← List.drop_drop, spelled, spell_cons, List.append_assoc, List.drop_left' rfl]
    rw [splice_copied text edits (Nat.le_add_right ..) (fun edit member => rest.start_ge member), front,
      inductionHypothesis behind, spell_cons, List.append_assoc]
  | @revise cursor gap body replacement pieces revised edits marked rest inductionHypothesis =>
    have front : (text.take (cursor + gap.length)).drop cursor = gap := by
      rw [List.drop_take, spelled, Nat.add_sub_cancel_left, spell_cons, Piece.spell, List.append_assoc, List.append_assoc,
        List.take_left' rfl]
    have behind : text.drop (cursor + (gap ++ body).length) = spell pieces ++ tail := by
      rw [← List.drop_drop, spelled, spell_cons, Piece.spell, List.append_assoc, List.drop_left' rfl]
    rw [splice, front, inductionHypothesis behind, spell_cons, Piece.spell, List.append_assoc, List.append_assoc,
      List.append_assoc]

theorem Revises.shift_front (revises : Revises cursor pieces edits revised) {point : Nat} (front : point ≤ cursor) :
    shift edits point = 0 := by
  apply shift_eq_zero
  intro edit member
  have := revises.start_ge member
  have := revises.start_lt_stop member
  omega

end Revises

end SqlParser.Library.MarkedText
