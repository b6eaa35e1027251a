import SqlParser.Core.PublicLexer

/-! # Block comments with and without nesting

The public lexer nests block comments in some dialects in which another reader of the
same text ends a comment at the first closing pair, and there are readers that look for
this pair from the star that opens the comment on.
-/

namespace SqlParser.Core

/-- The rest behind the first closing pair. -/
def behindFirstClose (rest : Text) : Text :=
  (behindDelimiter [Byte.star, Byte.slash] rest).getD []

/-! ## The loops byte by byte -/

theorem behindFirstClose_nil : behindFirstClose [] = [] := rfl

theorem behindFirstClose_last (byte : UInt8) : behindFirstClose [byte] = [] := by
  simp [behindFirstClose, behindDelimiter, List.isPrefixOf]

theorem behindFirstClose_cons (byte next : UInt8) (rest : Text) :
    behindFirstClose (byte :: next :: rest) =
      if byte = Byte.star ∧ next = Byte.slash then rest else behindFirstClose (next :: rest) := by
  rw [behindFirstClose, behindDelimiter]
  by_cases closes : byte = Byte.star ∧ next = Byte.slash
  · obtain ⟨rfl, rfl⟩ := closes
    simp
  · rw [if_neg closes, if_neg]
    · rfl
    · simp only [List.isPrefixOf, Bool.and_true, Bool.and_eq_true, beq_iff_eq]
      exact fun same => closes ⟨same.1.symm, same.2.symm⟩

theorem behindFirstClose_suffix (rest : Text) : behindFirstClose rest <:+ rest := by
  unfold behindFirstClose
  cases found : behindDelimiter [Byte.star, Byte.slash] rest with
  | none => exact List.nil_suffix
  | some behind => exact behindDelimiter_suffix found

/-- A turn of the nesting loop over two bytes. -/
theorem behindNested_cons (depth : Nat) (byte next : UInt8) (rest : Text) :
    behindBlockComment true depth (byte :: next :: rest) =
      if byte = Byte.slash ∧ next = Byte.star then behindBlockComment true (depth + 1) rest
      else if byte = Byte.star ∧ next = Byte.slash then
        if depth - 1 = 0 then rest else behindBlockComment true (depth - 1) rest
      else behindBlockComment true depth (next :: rest) := by
  by_cases stops : stopsBlockComment true byte
  · rw [behindBlockComment_jump, untilStop_here stops, blockCommentAt]
    simp
  · rw [behindBlockComment_pass depth (Bool.eq_false_of_not_eq_true stops)]
    simp only [stopsBlockComment, Bool.true_and, Bool.or_eq_true, decide_eq_true_eq, not_or] at stops
    rw [if_neg (fun opens => stops.2 opens.1), if_neg (fun closes => stops.1 closes.1)]

theorem behindNested_nil (depth : Nat) : behindBlockComment true depth [] = [] := by
  rw [behindBlockComment_jump]
  rfl

/-! ## Where the readings agree -/

/-- Whether no comment opens inside a block comment, unless the first closing pair ends the text.
Entered behind the opening pair. -/
def nestsInStep : Text → Bool
  | [] => true
  | [_] => true
  | byte :: next :: rest =>
    if byte = Byte.slash ∧ next = Byte.star then (behindFirstClose (next :: rest)).isEmpty
    else if byte = Byte.star ∧ next = Byte.slash then true
    else nestsInStep (next :: rest)

/-- The nesting loop ends nowhere before the second closing pair, and takes two bytes at least. -/
theorem behindNested_short (depth : Nat) (rest : Text) :
    behindBlockComment true depth rest = [] ∨
      ((behindBlockComment true depth rest).length + 2 ≤ rest.length ∧
        (behindBlockComment true depth rest).length ≤ (behindFirstClose rest).length ∧
        (2 ≤ depth → (behindBlockComment true depth rest).length < (behindFirstClose rest).length)) := by
  induction size : rest.length using Nat.strong_induction_on generalizing depth rest with
  | h size inductionHypothesis =>
  subst size
  match rest with
  | [] => exact .inl (behindNested_nil depth)
  | [byte] => exact .inl (behindBlockComment_last true depth byte)
  | byte :: next :: rest =>
    have tailShort := inductionHypothesis rest.length (by simp)
    have flatSuffix := (behindFirstClose_suffix rest).length_le
    rw [behindNested_cons]
    split_ifs with opens closes outermost
    · obtain ⟨rfl, rfl⟩ := opens
      obtain atEnd | ⟨two, order, deep⟩ := tailShort (depth + 1) rest rfl
      · exact .inl atEnd
      · -- the star of the inner opening pair may close the flat reading
        refine .inr ⟨by simp; omega, ?_⟩
        rw [behindFirstClose_cons, if_neg (fun closes => absurd closes.1 (by decide))]
        cases rest with
        | nil => simp at two
        | cons third tail =>
          rw [behindFirstClose_cons]
          split
          next =>
            rw [List.length_cons] at two
            omega
          next =>
            constructor <;> omega
    · obtain ⟨rfl, rfl⟩ := closes
      refine .inr ⟨by simp, ?_⟩
      rw [behindFirstClose_cons, if_pos ⟨rfl, rfl⟩]
      exact ⟨le_rfl, fun deep => by omega⟩
    · obtain ⟨rfl, rfl⟩ := closes
      rw [behindFirstClose_cons, if_pos ⟨rfl, rfl⟩]
      obtain atEnd | ⟨two, order, deep⟩ := tailShort (depth - 1) rest rfl
      · exact .inl atEnd
      · exact .inr ⟨by simp; omega, by omega, fun _ => by omega⟩
    · rw [behindFirstClose_cons, if_neg closes]
      obtain atEnd | ⟨two, order, deep⟩ := inductionHypothesis (next :: rest).length (by simp) depth (next :: rest) rfl
      · exact .inl atEnd
      · exact .inr ⟨by simp at two ⊢; omega, order, deep⟩

/-- Inside a nested comment the flat reading ends earlier, unless it ends the text. -/
theorem nestedOpen_agrees (rest : Text) :
    behindBlockComment true 2 rest = behindFirstClose (Byte.star :: rest) ↔
      behindFirstClose (Byte.star :: rest) = [] := by
  have short := behindNested_short 2 rest
  have flat : behindFirstClose (Byte.star :: rest) = behindFirstClose rest ∨
      ∃ tail, rest = Byte.slash :: tail ∧ behindFirstClose (Byte.star :: rest) = tail := by
    cases rest with
    | nil => exact .inl (behindFirstClose_last _)
    | cons third tail =>
      rw [behindFirstClose_cons]
      split
      next closes => exact .inr ⟨tail, by rw [closes.2], rfl⟩
      next => exact .inl rfl
  constructor
  · intro same
    obtain atEnd | ⟨two, order, deep⟩ := short
    · rw [← same, atEnd]
    · obtain flat | ⟨tail, rfl, flat⟩ := flat
      · rw [same, flat] at deep
        exact absurd (deep le_rfl) (lt_irrefl _)
      · rw [same, flat, List.length_cons] at two
        omega
  · intro atEnd
    rw [atEnd]
    obtain done | ⟨two, order, deep⟩ := short
    · exact done
    · obtain flat | ⟨tail, rfl, flat⟩ := flat
      · rw [← flat, atEnd] at deep
        exact absurd (deep le_rfl) (Nat.not_lt_zero _)
      · rw [atEnd] at flat
        rw [← flat, List.length_singleton] at two
        omega

/-- The nesting and the flat reading end a comment at the same place exactly when it nests in step. -/
theorem behindNested_flat_iff (rest : Text) :
    behindBlockComment true 1 rest = behindFirstClose rest ↔ nestsInStep rest := by
  fun_induction nestsInStep rest with
  | case1 => simp [behindNested_nil, behindFirstClose_nil]
  | case2 byte => simp [behindBlockComment_last, behindFirstClose_last]
  | case3 byte next rest opens =>
    obtain ⟨rfl, rfl⟩ := opens
    rw [behindNested_cons, if_pos ⟨rfl, rfl⟩, behindFirstClose_cons,
      if_neg (fun closes => absurd closes.1 (by decide)), nestedOpen_agrees, List.isEmpty_iff]
  | case4 byte next rest opens closes =>
    obtain ⟨rfl, rfl⟩ := closes
    rw [behindNested_cons, if_neg opens, if_pos ⟨rfl, rfl⟩, if_pos rfl, behindFirstClose_cons, if_pos ⟨rfl, rfl⟩]
    simp
  | case5 byte next rest opens closes inductionHypothesis =>
    rw [behindNested_cons, if_neg opens, if_neg closes, behindFirstClose_cons, if_neg closes]
    exact inductionHypothesis

/-- The same for a reader that may close the comment with the star that opens it: the comment does not
begin with a slash, unless this slash ends the text. -/
def blockInStep (body : Text) : Bool :=
  if body.head? = some Byte.slash then body.length = 1 else nestsInStep body

theorem blockInStep_iff (body : Text) :
    behindBlockComment true 1 body = behindFirstClose (Byte.star :: body) ↔ blockInStep body := by
  cases body with
  | nil => simp [behindNested_nil, behindFirstClose_last, blockInStep, nestsInStep]
  | cons first rest =>
    rw [behindFirstClose_cons, blockInStep, List.head?_cons]
    by_cases slash : first = Byte.slash
    · subst slash
      have closes : Byte.star = Byte.star ∧ Byte.slash = Byte.slash := ⟨rfl, rfl⟩
      rw [if_pos closes, if_pos rfl, decide_eq_true_eq, List.length_cons]
      obtain atEnd | ⟨two, -, -⟩ := behindNested_short 1 (Byte.slash :: rest)
      · rw [atEnd, eq_comm]
        simp
      · rw [List.length_cons] at two
        constructor
        · intro same
          rw [same] at two
          omega
        · intro single
          omega
    · have noSlash : some first ≠ some Byte.slash := fun same => slash (Option.some.inj same)
      rw [if_neg (fun closes => slash closes.2), if_neg noSlash]
      exact behindNested_flat_iff _

end SqlParser.Core
