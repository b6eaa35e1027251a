import SqlParser.Core.EscapedQuotes
import SqlParser.Library.ItemReader

/-! # The items of the public lexer

Iterated over a text, the public lexer finds its quoted items and comments.  Other
readers of the same text take the line feed that ends a line comment with it.
-/

namespace SqlParser.Core

open SqlParser.Library.ItemReader

/-- The items that begin before an offset for the public lexer. -/
def publicItems (dialect : Dialect) (sql : Text) (stop : Nat) : List Item :=
  items (publicSkipQuotedOrComment dialect sql) stop 0

/-- Two items are the same up to the line feed behind a line comment. -/
def SameItem (sql : Text) (found passed : Item) : Prop :=
  found.start = passed.start ∧ (found.stop = passed.stop ∨
    (byteAt sql passed.start = Byte.dash ∧ found.stop + 1 = passed.stop ∧ byteAt sql found.stop = Byte.lineFeed))

/-- Whether the quote at the offset stands behind the word `E`. -/
def escapePrefixed (sql : Text) (index : Nat) : Bool :=
  0 < index && (byteAt sql (index - 1) = 101 || byteAt sql (index - 1) = 69) &&
    (index = 1 || !publicCharIsIdent (byteAt sql (index - 2)))

theorem behindLine_cases (rest : Text) :
    behindLine rest = [] ∨ ∃ tail, behindLine rest = Byte.lineFeed :: tail := by
  cases line : behindLine rest with
  | nil => exact .inl rfl
  | cons feed tail =>
    have head := List.head?_dropWhile_not (fun byte => !decide (byte = Byte.lineFeed)) rest
    have jumped : rest.dropWhile (fun byte => !decide (byte = Byte.lineFeed)) = feed :: tail := line
    rw [jumped] at head
    have isFeed : feed = Byte.lineFeed := by simpa using head
    exact .inr ⟨tail, by rw [isFeed]⟩

section items

variable {dialect : Dialect} {sql : Text}

theorem publicSkip_lineFeed (dialect : Dialect) {sql : Text} {index : Nat} (feed : byteAt sql index = Byte.lineFeed) :
    publicSkipQuotedOrComment dialect sql index = index := by
  simp only [publicSkipQuotedOrComment, feed]
  rfl

/-- Behind the end that the public lexer finds for an item in step, it goes on like behind the item. -/
theorem items_resume {stop found next start : Nat}
    (same : SameItem sql ⟨start, found⟩ ⟨start, next⟩) :
    items (publicSkipQuotedOrComment dialect sql) stop found =
      items (publicSkipQuotedOrComment dialect sql) stop next := by
  obtain ⟨-, same | ⟨-, stops, feed⟩⟩ := same
  · exact congrArg _ same
  · dsimp only at stops
    subst stops
    apply items_plain
    exact (publicSkip_lineFeed dialect feed).le

/-- A reader that takes the line feed with a line comment passes the item of the public lexer. -/
theorem sameItem_line {start : Nat} {rest : Text} (dash : byteAt sql start = Byte.dash) (suffix : rest <:+ sql) :
    SameItem sql ⟨start, offsetOf sql (behindLine rest)⟩ ⟨start, offsetOf sql ((behindLine rest).drop 1)⟩ := by
  obtain atEnd | ⟨tail, line⟩ := behindLine_cases rest
  · rw [atEnd]
    exact ⟨rfl, .inl rfl⟩
  · have inText : Byte.lineFeed :: tail <:+ sql := by
      rw [← line]
      exact (untilStop_suffix _ _).trans suffix
    rw [line]
    exact ⟨rfl, .inr ⟨dash, (offsetOf_cons inText).symm, byteAt_offsetOf inText⟩⟩

end items

end SqlParser.Core
