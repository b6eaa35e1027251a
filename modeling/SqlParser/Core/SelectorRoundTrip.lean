import SqlParser.Core.Selector

/-! # The selector grammar round-trips

The formatter and the parser are two tables over the same spelling: `stmt`, a
bracketed statement index, a keyword and its bracketed indexes.  Both are
related to this spelling, which makes them inverse to each other on selectors
whose unprinted fields are zero.
-/

namespace SqlParser.Core

open SqlParser.Library.Decimal

/-! ## The spelling of a selector -/

def bracket (value : Nat) : Text :=
  openBracket :: (decimal value ++ [closeBracket])

def brackets (values : List Nat) : Text :=
  values.flatMap bracket

def selectorSpelling (statement : Nat) (keyword : String) (values : List Nat) : Text :=
  ascii "stmt" ++ (bracket statement ++ dot :: (ascii keyword ++ brackets values))

/-- The indexes that are printed behind a keyword. -/
def SelectorIndexes.printed (indexes : SelectorIndexes) (selector : Selector) : List Nat :=
  match indexes with
  | .none => []
  | .item => [selector.itemIndex]
  | .row => [selector.rowIndex]
  | .itemColumn => [selector.itemIndex, selector.columnIndex]
  | .rowColumn => [selector.rowIndex, selector.columnIndex]
  | .itemRow => [selector.itemIndex, selector.rowIndex]
  | .itemRowColumn => [selector.itemIndex, selector.rowIndex, selector.columnIndex]
  | .assignment =>
    if selector.rowIndex = 0 then [selector.itemIndex]
    else [selector.rowIndex - 1, selector.itemIndex]
  | .mergeAction =>
    if selector.rowIndex = 0 then [selector.itemIndex, selector.columnIndex]
    else [selector.rowIndex, selector.itemIndex, selector.columnIndex]
  | .branch =>
    if selector.rowIndex = 0 then [selector.itemIndex]
    else [selector.rowIndex, selector.itemIndex]

/-- The fields that are not printed are zero. -/
def SelectorIndexes.Normal (indexes : SelectorIndexes) (selector : Selector) : Prop :=
  match indexes with
  | .none => selector.itemIndex = 0 ∧ selector.rowIndex = 0 ∧ selector.columnIndex = 0
  | .item => selector.rowIndex = 0 ∧ selector.columnIndex = 0
  | .row => selector.itemIndex = 0 ∧ selector.columnIndex = 0
  | .itemColumn => selector.rowIndex = 0
  | .rowColumn => selector.itemIndex = 0
  | .itemRow => selector.columnIndex = 0
  | .itemRowColumn => True
  | .assignment => selector.columnIndex = 0
  | .mergeAction => True
  | .branch => selector.columnIndex = 0

/-- Every field is a `size_t`. -/
structure Selector.Fits (selector : Selector) : Prop where
  statement : selector.statementIndex ≤ sizeMax
  item : selector.itemIndex ≤ sizeMax
  row : selector.rowIndex ≤ sizeMax
  column : selector.columnIndex ≤ sizeMax

/-- The normal form of a kind: `size_t` fields, zero where the kind prints nothing. -/
structure Selector.NormalForm (selector : Selector) : Prop where
  fits : selector.Fits
  normal : ∀ row ∈ selectorKeywords, row.2.1 = selector.kind → row.2.2.Normal selector

theorem bracket_append (value : Nat) (rest : Text) :
    bracket value ++ rest = openBracket :: (decimal value ++ closeBracket :: rest) := by
  simp [bracket]

/-- Every kind but the unknown one has exactly one keyword. -/
theorem exists_keyword {kind : SelectorKind} (known : kind ≠ .unknown) :
    ∃ row ∈ selectorKeywords, row.2.1 = kind := by
  cases kind with
  | unknown => exact absurd rfl known
  | _ => decide

theorem keyword_unique : ∀ one ∈ selectorKeywords, ∀ two ∈ selectorKeywords,
    one.2.1 = two.2.1 → one = two := by
  decide

theorem keyword_length : ∀ row ∈ selectorKeywords, (ascii row.1).length ≤ 23 := by
  decide

/-- A keyword is found behind no other keyword's test, since none before it is its prefix. -/
theorem keyword_first : ∀ row ∈ selectorKeywords,
    (selectorKeywords.find? fun other => (ascii other.1).isPrefixOf (ascii row.1)) = some row := by
  decide

theorem keyword_plain : ∀ row ∈ selectorKeywords, openBracket ∉ ascii row.1 ∧ 37 ∉ ascii row.1 := by
  decide

/-! ## Parsing a spelling -/

theorem parseIndex_bracket {value : Nat} (fits : value ≤ sizeMax) (rest : Text) :
    parseIndex (bracket value ++ rest) = .ok (value, rest) := by
  have ends : (closeBracket :: rest).head?.all fun byte => !isDigit byte := rfl
  have read := @readDigits_append sizeMax 0 (decimal value) (closeBracket :: rest) (by decide)
    (isDigit_decimal value) ends
  rw [accumulate_decimal, if_pos (.inr fits)] at read
  rw [bracket_append]
  unfold parseIndex
  dsimp only
  rw [if_neg (by decide), read]
  have numeric : ¬ ((decimal value ++ closeBracket :: rest).head?.all fun byte => !isDigit byte) = true := by
    obtain ⟨first, others, same⟩ := List.exists_cons_of_ne_nil (decimal_ne_nil value)
    have := isDigit_decimal value first (by simp [same])
    simp [same, this]
  rw [if_neg numeric]
  rfl

theorem parseIndex_brackets {value : Nat} (fits : value ≤ sizeMax) (values : List Nat) :
    parseIndex (brackets (value :: values)) = .ok (value, brackets values) :=
  parseIndex_bracket fits (brackets values)

@[simp] theorem head_brackets_cons (value : Nat) (values : List Nat) :
    (brackets (value :: values)).head? = some openBracket := rfl

@[simp] theorem head_brackets_nil : (brackets []).head? = none := rfl

theorem parseItemIndex_brackets {value : Nat} (fits : value ≤ sizeMax) (selector : Selector)
    (values : List Nat) : parseItemIndex selector (brackets (value :: values)) =
      .ok ({ selector with itemIndex := value }, brackets values) := by
  unfold parseItemIndex
  rw [parseIndex_brackets fits]
  rfl

theorem parseRowIndex_brackets {value : Nat} (fits : value ≤ sizeMax) (selector : Selector)
    (values : List Nat) : parseRowIndex selector (brackets (value :: values)) =
      .ok ({ selector with rowIndex := value }, brackets values) := by
  unfold parseRowIndex
  rw [parseIndex_brackets fits]
  rfl

theorem parseColumnIndex_brackets {value : Nat} (fits : value ≤ sizeMax) (selector : Selector)
    (values : List Nat) : parseColumnIndex selector (brackets (value :: values)) =
      .ok ({ selector with columnIndex := value }, brackets values) := by
  unfold parseColumnIndex
  rw [parseIndex_brackets fits]
  rfl

theorem parseIndexes_printed {indexes : SelectorIndexes} {selector : Selector} (fits : selector.Fits)
    (normal : indexes.Normal selector) :
    parseIndexes indexes ⟨selector.kind, selector.statementIndex, 0, 0, 0⟩
      (brackets (indexes.printed selector)) = .ok (selector, []) := by
  obtain ⟨kind, statement, item, row, column⟩ := selector
  obtain ⟨-, itemFits, rowFits, columnFits⟩ := fits
  dsimp only at itemFits rowFits columnFits
  have nothing : brackets [] = [] := rfl
  cases indexes with
  | none =>
    obtain ⟨rfl, rfl, rfl⟩ := normal
    rfl
  | item =>
    obtain ⟨rfl, rfl⟩ := normal
    exact parseItemIndex_brackets itemFits _ []
  | row =>
    obtain ⟨rfl, rfl⟩ := normal
    exact parseRowIndex_brackets rowFits _ []
  | itemColumn =>
    obtain rfl := normal
    simp [parseIndexes, SelectorIndexes.printed, parseItemIndex_brackets itemFits,
      parseColumnIndex_brackets columnFits, nothing, bind, Except.bind]
  | rowColumn =>
    obtain rfl := normal
    simp [parseIndexes, SelectorIndexes.printed, parseRowIndex_brackets rowFits,
      parseColumnIndex_brackets columnFits, nothing, bind, Except.bind]
  | itemRow =>
    obtain rfl := normal
    simp [parseIndexes, SelectorIndexes.printed, parseItemIndex_brackets itemFits,
      parseRowIndex_brackets rowFits, nothing, bind, Except.bind]
  | itemRowColumn =>
    simp [parseIndexes, SelectorIndexes.printed, parseItemIndex_brackets itemFits,
      parseRowIndex_brackets rowFits, parseColumnIndex_brackets columnFits, nothing, bind, Except.bind]
  | assignment =>
    obtain rfl := normal
    by_cases zero : row = 0
    · subst zero
      simp [parseIndexes, SelectorIndexes.printed, parseItemIndex_brackets itemFits, nothing, bind,
        Except.bind]
    · have first : row - 1 ≤ sizeMax := by omega
      have inRange : row - 1 ≠ sizeMax := by omega
      have restored : row - 1 + 1 = row := by omega
      simp [parseIndexes, SelectorIndexes.printed, parseItemIndex_brackets itemFits,
        parseItemIndex_brackets first, inRange, restored, zero, nothing, bind, Except.bind]
  | mergeAction =>
    by_cases zero : row = 0
    · subst zero
      simp [parseIndexes, SelectorIndexes.printed, parseItemIndex_brackets itemFits,
        parseColumnIndex_brackets columnFits, nothing, bind, Except.bind]
    · simp [parseIndexes, SelectorIndexes.printed, parseItemIndex_brackets rowFits,
        parseColumnIndex_brackets itemFits, parseColumnIndex_brackets columnFits, zero, nothing, bind,
        Except.bind]
  | branch =>
    obtain rfl := normal
    by_cases zero : row = 0
    · subst zero
      simp [parseIndexes, SelectorIndexes.printed, parseItemIndex_brackets itemFits, nothing, bind,
        Except.bind]
    · simp [parseIndexes, SelectorIndexes.printed, parseItemIndex_brackets rowFits,
        parseItemIndex_brackets itemFits, zero, nothing, bind, Except.bind]

/-- A prefix without a bracket does not see what follows the next bracket. -/
theorem isPrefixOf_append {keyword text rest : Text} (plain : openBracket ∉ keyword)
    (ends : rest.head?.all (· == openBracket)) :
    keyword.isPrefixOf (text ++ rest) = keyword.isPrefixOf text := by
  induction keyword generalizing text with
  | nil => simp
  | cons byte keyword inductionHypothesis =>
    rw [List.mem_cons, not_or] at plain
    cases text with
    | nil =>
      cases rest with
      | nil => rfl
      | cons next rest =>
        have isBracket : next = openBracket := by simpa using ends
        simp [List.isPrefixOf, isBracket, Ne.symm plain.1]
    | cons next text => simp [List.isPrefixOf, inductionHypothesis plain.2]

theorem find_keyword {row : String × SelectorKind × SelectorIndexes} (member : row ∈ selectorKeywords)
    {rest : Text} (ends : rest.head?.all (· == openBracket)) :
    (selectorKeywords.find? fun other => (ascii other.1).isPrefixOf (ascii row.1 ++ rest)) = some row := by
  rw [← keyword_first row member]
  exact List.find?_congr fun other otherMember =>
    isPrefixOf_append (keyword_plain other otherMember).1 ends

theorem parseItemKind_keyword {keyword : String} {kind : SelectorKind} {indexes : SelectorIndexes}
    (member : (keyword, kind, indexes) ∈ selectorKeywords) (selector : Selector) {rest : Text}
    (ends : rest.head?.all (· == openBracket)) :
    parseItemKind selector (ascii keyword ++ rest) =
      parseIndexes indexes { selector with kind := kind } rest := by
  unfold parseItemKind
  rw [find_keyword member ends]
  simp only [List.drop_left]

theorem brackets_ends (values : List Nat) : (brackets values).head?.all (· == openBracket) := by
  cases values with
  | nil => rfl
  | cons value values => rfl

theorem keyword_ne_nil : ∀ row ∈ selectorKeywords, ascii row.1 ≠ [] := by
  decide

theorem stripKeyword_append (keyword : String) (rest : Text) :
    stripKeyword keyword (ascii keyword ++ rest) = some rest := by
  unfold stripKeyword
  rw [if_pos (by simp), List.drop_left]

/-- The parser goes on from the statement index to the item that a keyword names. -/
theorem selectorParse_item {statement : Nat} {keyword : String} {kind : SelectorKind}
    {indexes : SelectorIndexes} (member : (keyword, kind, indexes) ∈ selectorKeywords)
    {text rest : Text} (read : parseIndex text = .ok (statement, dot :: (ascii keyword ++ rest)))
    (ends : rest.head?.all (· == openBracket)) {selector : Selector}
    (parsed : parseIndexes indexes ⟨kind, statement, 0, 0, 0⟩ rest = .ok (selector, [])) :
    selectorParse (some (ascii "stmt" ++ text)) = .ok selector := by
  obtain ⟨first, others, spelled⟩ := List.exists_cons_of_ne_nil (keyword_ne_nil _ member)
  have item := parseItemKind_keyword member { Selector.cleared with statementIndex := statement } ends
  rw [spelled] at item
  unfold selectorParse
  split
  next nothing => simp at nothing
  next nothing =>
    have short := congrArg List.length (Option.some.inj nothing)
    rw [List.length_append] at short
    exact absurd short (Nat.ne_of_gt (Nat.add_pos_left (by decide) _))
  next whole _ same =>
    cases same
    rw [stripKeyword_append]
    simp only [read, bind, Except.bind, spelled, List.cons_append]
    rw [if_neg (by simp)]
    rw [List.cons_append] at item
    rw [item]
    simp only [Selector.cleared] at parsed ⊢
    rw [parsed]
    rfl

theorem selectorParse_spelling {selector : Selector} (fits : selector.Fits) {keyword : String}
    {indexes : SelectorIndexes} (member : (keyword, selector.kind, indexes) ∈ selectorKeywords)
    (normal : indexes.Normal selector) :
    selectorParse (some (selectorSpelling selector.statementIndex keyword (indexes.printed selector))) =
      .ok selector :=
  selectorParse_item member (parseIndex_bracket fits.statement _) (brackets_ends _)
    (parseIndexes_printed fits normal)

/-! ## Formatting a spelling -/

theorem formatText_plain {plain : Text} (noConversion : 37 ∉ plain) (format : Text) (values : List Nat) :
    formatText (plain ++ format) values = plain ++ formatText format values := by
  induction plain with
  | nil => rfl
  | cons byte plain inductionHypothesis =>
    rw [List.mem_cons, not_or] at noConversion
    rw [List.cons_append, List.cons_append, ← inductionHypothesis noConversion.2]
    -- A byte other than the percent sign starts no conversion.
    conv_lhs => unfold formatText
    split
    next same => exact absurd (List.cons.inj same).1.symm noConversion.1
    next same _ =>
      cases same
      rfl
    next same => cases same

def indexFormats (count : Nat) : Text :=
  (List.replicate count (ascii "[%zu]")).flatten

theorem formatText_indexes (values : List Nat) :
    formatText (indexFormats values.length) values = brackets values := by
  induction values with
  | nil => rfl
  | cons value values inductionHypothesis =>
    have step : formatText (indexFormats (values.length + 1)) (value :: values) =
      openBracket :: (decimal value ++ closeBracket :: formatText (indexFormats values.length) values) :=
      rfl
    rw [List.length_cons, step, inductionHypothesis]
    exact (bracket_append value (brackets values)).symm

/-- The format of a keyword with so many indexes. -/
def keywordFormat (keyword : String) (count : Nat) : Text :=
  ascii "stmt[%zu]." ++ (ascii keyword ++ indexFormats count)

theorem formatText_keyword {keyword : String} (plain : 37 ∉ ascii keyword) (statement : Nat)
    (values : List Nat) :
    formatText (keywordFormat keyword values.length) (statement :: values) =
      selectorSpelling statement keyword values := by
  have head : formatText (keywordFormat keyword values.length) (statement :: values) =
      ascii "stmt" ++ openBracket :: (decimal statement ++ closeBracket :: dot ::
        formatText (ascii keyword ++ indexFormats values.length) values) := rfl
  rw [head, formatText_plain plain, formatText_indexes, selectorSpelling, bracket_append]

/-- The formatter prints a selector by the keyword and the indexes of its kind. -/
theorem selectorFormat_spelling {keyword : String} {indexes : SelectorIndexes} {selector : Selector}
    (member : (keyword, selector.kind, indexes) ∈ selectorKeywords) :
    ∃ format, selectorFormat selector =
        some (format, selector.statementIndex :: indexes.printed selector) ∧
      ascii format = keywordFormat keyword (indexes.printed selector).length := by
  obtain ⟨kind, statement, item, rowIndex, column⟩ := selector
  generalize same : (keyword, kind, indexes) = row at member
  -- One case for each keyword, and one for the absent and the present row index.
  fin_cases member <;> cases same <;> cases rowIndex <;> exact ⟨_, rfl, rfl⟩

theorem selectorSpelling_length {selector : Selector} (fits : selector.Fits) {keyword : String}
    {indexes : SelectorIndexes} (member : (keyword, selector.kind, indexes) ∈ selectorKeywords) :
    (selectorSpelling selector.statementIndex keyword (indexes.printed selector)).length <
      selectorBufferSize := by
  have short : ∀ {value : Nat}, value ≤ sizeMax → (bracket value).length ≤ 22 := by
    intro value bound
    have := @decimal_length_le value 20 (by decide) (by simp only [sizeMax] at bound; omega)
    simp only [bracket, List.length_cons, List.length_append, List.length_nil]
    omega
  have keywordShort : (ascii keyword).length ≤ 23 := keyword_length _ member
  have statement := short fits.statement
  have item := short fits.item
  have row := short fits.row
  have column := short fits.column
  have first := @short (selector.rowIndex - 1) (by have := fits.row; omega)
  have many : (brackets (indexes.printed selector)).length ≤ 66 := by
    cases indexes <;> simp only [SelectorIndexes.printed] <;> try split
    all_goals simp only [brackets, List.flatMap_cons, List.flatMap_nil, List.length_append,
      List.length_nil]
    all_goals omega
  have prefixes : (ascii "stmt").length = 4 := rfl
  simp only [selectorSpelling, List.length_append, List.length_cons, selectorBufferSize, prefixes]
  omega

/-! ## The decimal fast path -/

theorem indexDigits_reverse (value : Nat) : (indexDigits value).reverse = decimal value := by
  induction value using indexDigits.induct with
  | case1 value inductionHypothesis =>
    unfold indexDigits
    rw [List.reverse_cons]
    by_cases small : value / 10 = 0
    · rw [if_pos small, decimal_small small]
      rfl
    · rw [if_neg small, decimal_step small, inductionHypothesis small]

theorem appendIndex_eq {capacity : Nat} {buffer : Text} {value : Nat}
    (room : buffer.length + (bracket value).length < capacity) :
    appendIndex capacity buffer value = some (buffer ++ bracket value) := by
  have digits : (indexDigits value).length = (decimal value).length := by
    rw [← indexDigits_reverse, List.length_reverse]
  simp only [bracket, List.length_cons, List.length_append, List.length_nil] at room
  unfold appendIndex
  rw [if_neg (by omega), indexDigits_reverse]
  simp [bracket]

theorem insertCell_member : ("insert_cell", .insertCell, .rowColumn) ∈ selectorKeywords := by
  decide

/-- The fast path writes the bytes of the general path. -/
theorem formatInsertCell_eq {selector : Selector} (fits : selector.Fits)
    (kind : selector.kind = .insertCell) :
    formatInsertCell selector selectorBufferSize =
      some (selectorSpelling selector.statementIndex "insert_cell"
        [selector.rowIndex, selector.columnIndex]) := by
  have short := @selectorSpelling_length selector fits "insert_cell" .rowColumn
    (by rw [kind]; exact insertCell_member)
  have spelled : selectorSpelling selector.statementIndex "insert_cell"
      [selector.rowIndex, selector.columnIndex] =
      ascii "stmt" ++ bracket selector.statementIndex ++ ascii ".insert_cell" ++
        bracket selector.rowIndex ++ bracket selector.columnIndex := by
    have split : ascii ".insert_cell" = dot :: ascii "insert_cell" := rfl
    simp [selectorSpelling, brackets, split]
  have sizes : (ascii "stmt").length = 4 ∧ (ascii ".insert_cell").length = 12 := ⟨rfl, rfl⟩
  simp only [SelectorIndexes.printed, spelled, List.length_append, sizes] at short
  rw [spelled]
  unfold formatInsertCell
  rw [if_neg (by decide), appendIndex_eq (by rw [sizes.1]; omega)]
  dsimp only
  rw [if_neg (by simp only [List.length_append, sizes]; omega),
    appendIndex_eq (by simp only [List.length_append, sizes]; omega)]
  dsimp only
  rw [appendIndex_eq (by simp only [List.length_append, sizes]; omega)]
  dsimp only
  rw [if_neg]
  simp only [List.length_append, sizes, int32Max, selectorBufferSize] at *
  omega

/-- Either path of the formatter leaves the spelling in its buffer. -/
theorem selectorFormatText_spelling (fastPath malloc : Bool) {selector : Selector}
    (fits : selector.Fits) {keyword : String} {indexes : SelectorIndexes}
    (member : (keyword, selector.kind, indexes) ∈ selectorKeywords) :
    selectorFormatText fastPath malloc (some selector) =
      if malloc then
        .ok (selectorSpelling selector.statementIndex keyword (indexes.printed selector))
      else .error outOfMemory := by
  obtain ⟨format, formatted, spelled⟩ := selectorFormat_spelling member
  have text : formatText (ascii format) (selector.statementIndex :: indexes.printed selector) =
      selectorSpelling selector.statementIndex keyword (indexes.printed selector) := by
    rw [spelled]
    exact formatText_keyword (keyword_plain _ member).2 _ _
  have buffer : selectorBuffer fastPath selector format
      (selector.statementIndex :: indexes.printed selector) =
      some (selectorSpelling selector.statementIndex keyword (indexes.printed selector)) := by
    unfold selectorBuffer
    split
    next fast =>
      have same := keyword_unique _ member _ insertCell_member fast.1
      obtain ⟨rfl, rfl⟩ : keyword = "insert_cell" ∧ indexes = .rowColumn :=
        ⟨congrArg Prod.fst same, congrArg (fun row => row.2.2) same⟩
      exact formatInsertCell_eq fits fast.1
    next general =>
      simp only [text]
      exact if_neg (Nat.not_le.mpr (selectorSpelling_length fits member))
  unfold selectorFormatText
  simp only [formatted, buffer]

/-! ## What the parser accepts -/

/-- A text in which every bracket opens one of these decimal groups. -/
inductive Grouped : Text → List Text → Prop
  | nil : Grouped [] []
  | plain {byte : UInt8} {text : Text} {groups : List Text} (other : byte ≠ openBracket)
      (rest : Grouped text groups) : Grouped (byte :: text) groups
  | group {digits text : Text} {groups : List Text} (allDigits : ∀ byte ∈ digits, isDigit byte = true)
      (rest : Grouped text groups) :
      Grouped (openBracket :: (digits ++ closeBracket :: text)) (digits :: groups)

theorem Grouped.append_plain {plain text : Text} {groups : List Text} (noBracket : openBracket ∉ plain)
    (rest : Grouped text groups) : Grouped (plain ++ text) groups := by
  induction plain with
  | nil => exact rest
  | cons byte plain inductionHypothesis =>
    rw [List.mem_cons, not_or] at noBracket
    exact .plain (Ne.symm noBracket.1) (inductionHypothesis noBracket.2)

theorem digits_split {left right : Text} {leftRest rightRest : Text}
    (leftDigits : ∀ byte ∈ left, isDigit byte = true) (rightDigits : ∀ byte ∈ right, isDigit byte = true)
    (same : left ++ closeBracket :: leftRest = right ++ closeBracket :: rightRest) : left = right := by
  have stops : isDigit closeBracket = false := rfl
  have taken := congrArg (List.takeWhile isDigit) same
  rw [List.takeWhile_append_of_pos leftDigits, List.takeWhile_append_of_pos rightDigits,
    List.takeWhile_cons_of_neg (by simp [stops]), List.takeWhile_cons_of_neg (by simp [stops]),
    List.append_nil, List.append_nil] at taken
  exact taken

/-- Every bracketed digit string of a grouped text is one of its groups. -/
theorem Grouped.mem {text : Text} {groups : List Text} (grouped : Grouped text groups)
    {before digits after : Text} (allDigits : ∀ byte ∈ digits, isDigit byte = true)
    (found : text = before ++ openBracket :: (digits ++ closeBracket :: after)) : digits ∈ groups := by
  induction grouped generalizing before with
  | nil => simp at found
  | plain other rest inductionHypothesis =>
    cases before with
    | nil => exact absurd (List.cons.inj found).1 other
    | cons byte before => exact inductionHypothesis (List.cons.inj found).2
  | @group own text groups ownDigits rest inductionHypothesis =>
    cases before with
    | nil =>
      rw [digits_split ownDigits allDigits (List.cons.inj found).2]
      exact List.mem_cons_self
    | cons byte before =>
      -- The group ends before the next bracket opens.
      have tail := (List.cons.inj found).2
      obtain ⟨middle, -, inRest⟩ | ⟨middle, inOwn, same⟩ := List.append_eq_append_iff.mp tail
      · cases middle with
        | nil => exact absurd (List.cons.inj inRest).1 (by decide)
        | cons close middle =>
          exact List.mem_cons_of_mem _ (inductionHypothesis (List.cons.inj inRest).2)
      · cases middle with
        | nil => exact absurd (List.cons.inj same).1 (by decide)
        | cons byte' middle =>
          rw [← (List.cons.inj same).1] at inOwn
          have isOpen := ownDigits openBracket (by simp [inOwn])
          exact absurd isOpen (by decide)

/-- A digit string whose value is a size. -/
structure SizeNumeral (digits : Text) : Prop where
  allDigits : ∀ byte ∈ digits, isDigit byte = true
  fits : accumulate 0 digits ≤ sizeMax

theorem parseIndex_ok {text rest : Text} {value : Nat} (parsed : parseIndex text = .ok (value, rest)) :
    ∃ digits, text = openBracket :: (digits ++ closeBracket :: rest) ∧ SizeNumeral digits ∧
      value = accumulate 0 digits := by
  unfold parseIndex at parsed
  cases text with
  | nil => cases parsed
  | cons first text =>
    dsimp only at parsed
    split at parsed
    next => cases parsed
    next isOpen =>
      split at parsed
      next => cases parsed
      next =>
        cases read : readDigits sizeMax 0 text with
        | none => simp [read] at parsed
        | some result =>
          obtain ⟨result, behind⟩ := result
          simp only [read] at parsed
          obtain ⟨digits, rfl, allDigits, rfl, -, bounded⟩ := readDigits_some read
          cases behind with
          | nil => cases parsed
          | cons last behind =>
            dsimp only at parsed
            split at parsed
            next => cases parsed
            next isClose =>
              cases parsed
              rw [not_not.mp isOpen, not_not.mp isClose]
              refine ⟨digits, rfl, ⟨allDigits, ?_⟩, rfl⟩
              by_cases empty : digits = []
              · rw [empty]
                exact Nat.zero_le _
              · exact bounded empty (by decide)

theorem parseIndex_fits {text rest : Text} {value : Nat} (parsed : parseIndex text = .ok (value, rest)) :
    value ≤ sizeMax := by
  obtain ⟨digits, -, numeral, rfl⟩ := parseIndex_ok parsed
  exact numeral.fits

/-- What a reader of indexes took from a text. -/
def Took (text rest : Text) : Prop :=
  ∀ groups, Grouped rest groups → (∀ group ∈ groups, SizeNumeral group) →
    ∃ groups', Grouped text groups' ∧ ∀ group ∈ groups', SizeNumeral group

theorem Took.trans {text middle rest : Text} (first : Took text middle) (second : Took middle rest) :
    Took text rest := by
  intro groups grouped numerals
  obtain ⟨more, moreGrouped, moreNumerals⟩ := second groups grouped numerals
  exact first more moreGrouped moreNumerals

theorem parseIndex_took {text rest : Text} {value : Nat} (parsed : parseIndex text = .ok (value, rest)) :
    Took text rest := by
  obtain ⟨digits, rfl, numeral, -⟩ := parseIndex_ok parsed
  intro groups grouped numerals
  exact ⟨digits :: groups, .group numeral.allDigits grouped, by simpa using ⟨numeral, numerals⟩⟩

theorem parseItemIndex_ok {selector after : Selector} {text rest : Text}
    (parsed : parseItemIndex selector text = .ok (after, rest)) :
    ∃ value ≤ sizeMax, after = { selector with itemIndex := value } ∧ Took text rest := by
  unfold parseItemIndex at parsed
  cases read : parseIndex text with
  | error error => simp [read, bind, Except.bind] at parsed
  | ok result =>
    simp only [read, bind, Except.bind, pure, Except.pure, Except.ok.injEq, Prod.mk.injEq] at parsed
    obtain ⟨rfl, rfl⟩ := parsed
    exact ⟨result.1, parseIndex_fits read, rfl, parseIndex_took read⟩

theorem parseRowIndex_ok {selector after : Selector} {text rest : Text}
    (parsed : parseRowIndex selector text = .ok (after, rest)) :
    ∃ value ≤ sizeMax, after = { selector with rowIndex := value } ∧ Took text rest := by
  unfold parseRowIndex at parsed
  cases read : parseIndex text with
  | error error => simp [read, bind, Except.bind] at parsed
  | ok result =>
    simp only [read, bind, Except.bind, pure, Except.pure, Except.ok.injEq, Prod.mk.injEq] at parsed
    obtain ⟨rfl, rfl⟩ := parsed
    exact ⟨result.1, parseIndex_fits read, rfl, parseIndex_took read⟩

theorem parseColumnIndex_ok {selector after : Selector} {text rest : Text}
    (parsed : parseColumnIndex selector text = .ok (after, rest)) :
    ∃ value ≤ sizeMax, after = { selector with columnIndex := value } ∧ Took text rest := by
  unfold parseColumnIndex at parsed
  cases read : parseIndex text with
  | error error => simp [read, bind, Except.bind] at parsed
  | ok result =>
    simp only [read, bind, Except.bind, pure, Except.pure, Except.ok.injEq, Prod.mk.injEq] at parsed
    obtain ⟨rfl, rfl⟩ := parsed
    exact ⟨result.1, parseIndex_fits read, rfl, parseIndex_took read⟩

/-- From `first >>= next = .ok result`, the two steps. -/
theorem bind_ok {α β : Type} {first : Except Error α} {next : α → Except Error β} {result : β}
    (done : (first >>= next) = .ok result) : ∃ value, first = .ok value ∧ next value = .ok result := by
  cases first with
  | error error => cases done
  | ok value => exact ⟨value, rfl, done⟩

/-- Reading indexes keeps the kind and the statement and leaves a normal form. -/
theorem parseIndexes_ok {indexes : SelectorIndexes} {kind : SelectorKind} {statement : Nat}
    (statementFits : statement ≤ sizeMax) {text rest : Text} {selector : Selector}
    (parsed : parseIndexes indexes ⟨kind, statement, 0, 0, 0⟩ text = .ok (selector, rest)) :
    selector.kind = kind ∧ selector.Fits ∧ indexes.Normal selector ∧ Took text rest := by
  cases indexes with
  | none =>
    cases parsed
    exact ⟨rfl, ⟨statementFits, Nat.zero_le _, Nat.zero_le _, Nat.zero_le _⟩, ⟨rfl, rfl, rfl⟩,
      fun groups grouped numerals => ⟨groups, grouped, numerals⟩⟩
  | item =>
    obtain ⟨item, itemFits, rfl, took⟩ := parseItemIndex_ok parsed
    exact ⟨rfl, ⟨statementFits, itemFits, Nat.zero_le _, Nat.zero_le _⟩, ⟨rfl, rfl⟩, took⟩
  | row =>
    obtain ⟨row, rowFits, rfl, took⟩ := parseRowIndex_ok parsed
    exact ⟨rfl, ⟨statementFits, Nat.zero_le _, rowFits, Nat.zero_le _⟩, ⟨rfl, rfl⟩, took⟩
  | itemColumn =>
    obtain ⟨⟨_, middle⟩, first, second⟩ := bind_ok parsed
    obtain ⟨item, itemFits, rfl, took⟩ := parseItemIndex_ok first
    obtain ⟨column, columnFits, rfl, tookMore⟩ := parseColumnIndex_ok second
    exact ⟨rfl, ⟨statementFits, itemFits, Nat.zero_le _, columnFits⟩, rfl, took.trans tookMore⟩
  | rowColumn =>
    obtain ⟨⟨_, middle⟩, first, second⟩ := bind_ok parsed
    obtain ⟨row, rowFits, rfl, took⟩ := parseRowIndex_ok first
    obtain ⟨column, columnFits, rfl, tookMore⟩ := parseColumnIndex_ok second
    exact ⟨rfl, ⟨statementFits, Nat.zero_le _, rowFits, columnFits⟩, rfl, took.trans tookMore⟩
  | itemRow =>
    obtain ⟨⟨_, middle⟩, first, second⟩ := bind_ok parsed
    obtain ⟨item, itemFits, rfl, took⟩ := parseItemIndex_ok first
    obtain ⟨row, rowFits, rfl, tookMore⟩ := parseRowIndex_ok second
    exact ⟨rfl, ⟨statementFits, itemFits, rowFits, Nat.zero_le _⟩, rfl, took.trans tookMore⟩
  | itemRowColumn =>
    obtain ⟨⟨_, middle⟩, first, others⟩ := bind_ok parsed
    obtain ⟨⟨_, later⟩, second, third⟩ := bind_ok others
    obtain ⟨item, itemFits, rfl, took⟩ := parseItemIndex_ok first
    obtain ⟨row, rowFits, rfl, tookMore⟩ := parseRowIndex_ok second
    obtain ⟨column, columnFits, rfl, tookLast⟩ := parseColumnIndex_ok third
    exact ⟨rfl, ⟨statementFits, itemFits, rowFits, columnFits⟩, trivial,
      (took.trans tookMore).trans tookLast⟩
  | assignment =>
    obtain ⟨⟨_, middle⟩, first, second⟩ := bind_ok parsed
    obtain ⟨item, itemFits, rfl, took⟩ := parseItemIndex_ok first
    dsimp only at second
    split at second
    -- a second index moves the first one to the row, shifted by one
    next more =>
      split at second
      next => cases second
      next inRange =>
        obtain ⟨inner, innerFits, rfl, tookMore⟩ := parseItemIndex_ok second
        have rowFits : item + 1 ≤ sizeMax := by omega
        exact ⟨rfl, ⟨statementFits, innerFits, rowFits, Nat.zero_le _⟩, rfl, took.trans tookMore⟩
    next =>
      cases second
      exact ⟨rfl, ⟨statementFits, itemFits, Nat.zero_le _, Nat.zero_le _⟩, rfl, took⟩
  | mergeAction =>
    obtain ⟨⟨_, middle⟩, first, others⟩ := bind_ok parsed
    obtain ⟨⟨_, later⟩, second, third⟩ := bind_ok others
    obtain ⟨item, itemFits, rfl, took⟩ := parseItemIndex_ok first
    obtain ⟨column, columnFits, rfl, tookMore⟩ := parseColumnIndex_ok second
    -- with a third index the first moves to the row and the second to the item
    dsimp only at third
    split at third
    next more =>
      obtain ⟨inner, innerFits, rfl, tookLast⟩ := parseColumnIndex_ok third
      exact ⟨rfl, ⟨statementFits, columnFits, itemFits, innerFits⟩, trivial,
        (took.trans tookMore).trans tookLast⟩
    next =>
      cases third
      exact ⟨rfl, ⟨statementFits, itemFits, Nat.zero_le _, columnFits⟩, trivial, took.trans tookMore⟩
  | branch =>
    obtain ⟨⟨_, middle⟩, first, second⟩ := bind_ok parsed
    obtain ⟨item, itemFits, rfl, took⟩ := parseItemIndex_ok first
    dsimp only at second
    split at second
    next more =>
      obtain ⟨inner, innerFits, rfl, tookMore⟩ := parseItemIndex_ok second
      exact ⟨rfl, ⟨statementFits, innerFits, itemFits, Nat.zero_le _⟩, rfl, took.trans tookMore⟩
    next =>
      cases second
      exact ⟨rfl, ⟨statementFits, itemFits, Nat.zero_le _, Nat.zero_le _⟩, rfl, took⟩

theorem stripKeyword_some {keyword : String} {text rest : Text}
    (stripped : stripKeyword keyword text = some rest) : text = ascii keyword ++ rest := by
  unfold stripKeyword at stripped
  split at stripped
  next isPrefix =>
    cases stripped
    obtain ⟨rest, rfl⟩ := List.isPrefixOf_iff_prefix.mp isPrefix
    rw [List.drop_left]
  next => cases stripped

theorem parseItemKind_ok {statement : Nat} (statementFits : statement ≤ sizeMax) {text rest : Text}
    {selector : Selector}
    (parsed : parseItemKind { Selector.cleared with statementIndex := statement } text =
      .ok (selector, rest)) :
    ∃ keyword indexes, (keyword, selector.kind, indexes) ∈ selectorKeywords ∧ selector.Fits ∧
      indexes.Normal selector ∧ Took text rest := by
  unfold parseItemKind at parsed
  split at parsed
  next => cases parsed
  next keyword kind indexes found =>
    have member := List.mem_of_find?_eq_some found
    have isPrefix := List.find?_some found
    obtain ⟨behind, rfl⟩ := List.isPrefixOf_iff_prefix.mp isPrefix
    rw [List.drop_left] at parsed
    obtain ⟨rfl, fits, normal, took⟩ := parseIndexes_ok statementFits parsed
    refine ⟨keyword, indexes, member, fits, normal, ?_⟩
    intro groups grouped numerals
    obtain ⟨more, moreGrouped, moreNumerals⟩ := took groups grouped numerals
    exact ⟨more, moreGrouped.append_plain (keyword_plain _ member).1, moreNumerals⟩

/-- An accepted text names a selector in normal form, and each of its brackets holds a size. -/
theorem selectorParse_ok {text : Text} {selector : Selector}
    (parsed : selectorParse (some text) = .ok selector) :
    (∃ keyword indexes, (keyword, selector.kind, indexes) ∈ selectorKeywords ∧ selector.Fits ∧
      indexes.Normal selector) ∧
      ∃ groups, Grouped text groups ∧ ∀ group ∈ groups, SizeNumeral group := by
  unfold selectorParse at parsed
  split at parsed
  next => cases parsed
  next => cases parsed
  next text' _ same =>
    cases same
    split at parsed
    next => cases parsed
    next rest stripped =>
      obtain ⟨⟨statement, behind⟩, read, others⟩ := bind_ok parsed
      dsimp only at others
      split at others
      next point byte rest' =>
        split at others
        next => cases others
        next isDot =>
          obtain ⟨⟨item, last⟩, item', final⟩ := bind_ok others
          dsimp only at final
          split at final
          next => cases final
          next finished =>
            cases final
            obtain ⟨keyword, indexes, member, fits, normal, took⟩ :=
              parseItemKind_ok (parseIndex_fits read) item'
            refine ⟨⟨keyword, indexes, member, fits, normal⟩, ?_⟩
            rw [not_not.mp finished] at took
            obtain ⟨inner, innerGrouped, innerNumerals⟩ := took [] .nil (by simp)
            have pointed : Grouped (point :: byte :: rest') inner :=
              .plain (by rw [not_not.mp isDot]; decide) innerGrouped
            obtain ⟨groups, grouped, numerals⟩ := parseIndex_took read inner pointed innerNumerals
            refine ⟨groups, ?_, numerals⟩
            rw [stripKeyword_some stripped]
            exact grouped.append_plain (by decide)
      next => cases others

/-! ## The recogniser -/

theorem isDigit_iff_range {byte : UInt8} : isDigit byte = true ↔ 48 ≤ byte ∧ byte ≤ 57 := by
  simp [isDigit]

/-- The do-while loop of the recogniser is the bounded reader, once it stands on a digit. -/
theorem patchDigits_eq {value result : Nat} {byte : UInt8} {text rest : Text}
    (digit : isDigit byte = true) (read : patchDigits value (byte :: text) = some (result, rest)) :
    readDigits sizeMax value (byte :: text) = some (result, rest) := by
  induction text generalizing value byte with
  | nil =>
    unfold patchDigits at read
    unfold readDigits
    rw [if_pos digit]
    dsimp only at read
    split at read
    next => cases read
    next fits =>
      rw [if_neg fits]
      exact read
  | cons next text inductionHypothesis =>
    unfold patchDigits at read
    rw [readDigits, if_pos digit]
    dsimp only at read
    split at read
    next => cases read
    next fits =>
      rw [if_neg fits]
      split at read
      next more => exact inductionHypothesis (isDigit_iff_range.mpr more) read
      next stops =>
        rw [readDigits, if_neg (by rwa [isDigit_iff_range])]
        exact read

theorem patchValue_eq {text rest : Text} {value : Nat} (read : patchValue text = some (value, rest)) :
    parseIndex text = .ok (value, rest) := by
  unfold patchValue at read
  split at read
  next first byte behind =>
    split at read
    next => cases read
    next isOpen =>
      split at read
      next => cases read
      next inRange =>
        have digit : isDigit byte = true := by
          rw [isDigit_iff_range]
          simpa using inRange
        split at read
        next result last rest' digits =>
          split at read
          next => cases read
          next isClose =>
            cases read
            unfold parseIndex
            dsimp only
            rw [if_neg isOpen, if_neg (by simp [digit]), patchDigits_eq digit digits]
            exact if_neg isClose
        next => cases read
  next => cases read

theorem patchValue_open {text rest : Text} {value : Nat} (read : patchValue text = some (value, rest)) :
    text.head? = some openBracket := by
  obtain ⟨digits, rfl, -⟩ := parseIndex_ok (patchValue_eq read)
  rfl

theorem patchParse_sound {text : Option Text} {before after : Selector}
    (accepted : patchParseInsertCellSelector text before = (true, after)) :
    selectorParse text = .ok after := by
  unfold patchParseInsertCellSelector at accepted
  split at accepted
  next => cases accepted
  next rest stripped =>
    obtain ⟨text, rfl, stripped⟩ := Option.bind_eq_some_iff.mp stripped
    obtain rfl := stripKeyword_some stripped
    split at accepted
    next => cases accepted
    next statement behind statementRead =>
      split at accepted
      next => cases accepted
      next cell cellStripped =>
        obtain rfl := stripKeyword_some cellStripped
        split at accepted
        next => cases accepted
        next row behind rowRead =>
          split at accepted
          next => cases accepted
          next column last columnRead =>
            split at accepted
            next => cases accepted
            next finished =>
              cases accepted
              rw [not_not.mp finished] at columnRead
              have ends : cell.head?.all (· == openBracket) := by
                rw [patchValue_open rowRead]
                rfl
              have indexes : parseIndexes .rowColumn ⟨.insertCell, statement, 0, 0, 0⟩ cell =
                  .ok (⟨.insertCell, statement, 0, row, column⟩, []) := by
                simp [parseIndexes, parseRowIndex, parseColumnIndex, patchValue_eq rowRead,
                  patchValue_eq columnRead, bind, Except.bind, pure, Except.pure]
              exact selectorParse_item insertCell_member (patchValue_eq statementRead) ends indexes

theorem patchParse_rejects {text : Option Text} {before after : Selector}
    (rejected : patchParseInsertCellSelector text before = (false, after)) : after = before := by
  unfold patchParseInsertCellSelector at rejected
  repeat' split at rejected
  all_goals simp_all

/-! ## The round trip -/

theorem Selector.NormalForm.keyword {selector : Selector} (form : selector.NormalForm)
    (known : selector.kind ≠ .unknown) :
    ∃ keyword indexes, (keyword, selector.kind, indexes) ∈ selectorKeywords ∧
      indexes.Normal selector := by
  obtain ⟨⟨keyword, kind, indexes⟩, member, rfl⟩ := exists_keyword known
  exact ⟨keyword, indexes, member, form.normal _ member rfl⟩

theorem format_parse {fastPath : Bool} {selector : Selector} (fits : selector.Fits) {keyword : String}
    {indexes : SelectorIndexes} (member : (keyword, selector.kind, indexes) ∈ selectorKeywords)
    (normal : indexes.Normal selector) :
    ∃ text, selectorFormatText fastPath true (some selector) = .ok text ∧
      text.length < selectorBufferSize ∧ selectorParse (some text) = .ok selector :=
  ⟨_, selectorFormatText_spelling fastPath true fits member, selectorSpelling_length fits member,
    selectorParse_spelling fits member normal⟩

theorem selector_round_trip :
    (∀ (fastPath : Bool) (selector : Selector), selector.kind ≠ .unknown → selector.NormalForm →
      ∃ text, selectorFormatText fastPath true (some selector) = .ok text ∧
        text.length < selectorBufferSize ∧ selectorParse (some text) = .ok selector) ∧
    (∀ (onePath otherPath : Bool) (one other : Selector) (text : Text),
      one.kind ≠ .unknown → one.NormalForm → other.kind ≠ .unknown → other.NormalForm →
      selectorFormatText onePath true (some one) = .ok text →
      selectorFormatText otherPath true (some other) = .ok text → one = other) ∧
    (∀ (fastPath : Bool) (text : Option Text) (selector : Selector),
      selectorParse text = .ok selector →
      ∃ printed, selectorFormatText fastPath true (some selector) = .ok printed ∧
        selectorParse (some printed) = .ok selector) ∧
    (∀ (malloc : Bool) (selector : Selector), selector.kind = .insertCell → selector.Fits →
      selectorFormatText true malloc (some selector) =
        selectorFormatText false malloc (some selector) ∧
      formatInsertCell selector selectorBufferSize = some (formatText
        (ascii "stmt[%zu].insert_cell[%zu][%zu]")
        [selector.statementIndex, selector.rowIndex, selector.columnIndex])) ∧
    (∀ (text : Option Text) (before after : Selector),
      (patchParseInsertCellSelector text before = (true, after) → selectorParse text = .ok after) ∧
      (patchParseInsertCellSelector text before = (false, after) → after = before)) ∧
    (∀ (before digits after : Text), (∀ byte ∈ digits, isDigit byte = true) →
      sizeMax < accumulate 0 digits → ∀ selector,
      selectorParse (some (before ++ openBracket :: (digits ++ closeBracket :: after))) ≠
        .ok selector) := by
  refine ⟨?_, ?_, ?_, ?_, ?_, ?_⟩
  · intro fastPath selector known form
    obtain ⟨keyword, indexes, member, normal⟩ := form.keyword known
    exact format_parse form.fits member normal
  · intro onePath otherPath one other text oneKnown oneForm otherKnown otherForm oneText otherText
    obtain ⟨keyword, indexes, member, normal⟩ := oneForm.keyword oneKnown
    obtain ⟨keyword', indexes', member', normal'⟩ := otherForm.keyword otherKnown
    obtain ⟨printed, formatted, -, parsed⟩ := @format_parse onePath one oneForm.fits _ _ member normal
    obtain ⟨printed', formatted', -, parsed'⟩ :=
      @format_parse otherPath other otherForm.fits _ _ member' normal'
    -- Both selectors are the parse of the one text.
    obtain rfl : printed = text := Except.ok.inj (formatted.symm.trans oneText)
    obtain rfl : printed' = printed := Except.ok.inj (formatted'.symm.trans otherText)
    exact Except.ok.inj (parsed.symm.trans parsed')
  · intro fastPath text selector parsed
    cases text with
    | none => cases parsed
    | some text =>
      obtain ⟨⟨keyword, indexes, member, fits, normal⟩, -⟩ := selectorParse_ok parsed
      obtain ⟨printed, formatted, -, again⟩ := @format_parse fastPath selector fits _ _ member normal
      exact ⟨printed, formatted, again⟩
  · intro malloc selector kind fits
    have member : ("insert_cell", selector.kind, .rowColumn) ∈ selectorKeywords := by
      rw [kind]
      exact insertCell_member
    constructor
    · rw [selectorFormatText_spelling true malloc fits member,
        selectorFormatText_spelling false malloc fits member]
    · rw [formatInsertCell_eq fits kind]
      exact congrArg some (formatText_keyword (by decide) selector.statementIndex
        [selector.rowIndex, selector.columnIndex]).symm
  · intro text before after
    exact ⟨patchParse_sound, patchParse_rejects⟩
  · intro before digits after allDigits overflow selector parsed
    obtain ⟨-, groups, grouped, numerals⟩ := selectorParse_ok parsed
    have fits := (numerals digits (grouped.mem allDigits rfl)).fits
    omega

/-- A merge action with a branch, at the largest index. -/
theorem selector_round_trip_merge :
    ∃ text, selectorFormatText true true (some ⟨.mergeInsertCell, 0, sizeMax, 2, 1⟩) = .ok text ∧
      text.length < selectorBufferSize ∧
      selectorParse (some text) = .ok ⟨.mergeInsertCell, 0, sizeMax, 2, 1⟩ :=
  selector_round_trip.1 true ⟨.mergeInsertCell, 0, sizeMax, 2, 1⟩ (by decide)
    ⟨⟨by decide, le_rfl, by decide, by decide⟩, by
      intro row member kind
      have same := keyword_unique row member
        ("merge_insert_cell", .mergeInsertCell, .mergeAction) (by decide) kind
      rw [same]
      trivial⟩

end SqlParser.Core
