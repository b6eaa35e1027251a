import Mathlib

/-! # Writers of a buffer of known size

A writer fills a buffer from its start and notes when something no longer fits. A function that
writes a certain content wherever there is room for it composes with the function that writes the
content behind.
-/

namespace SqlParser.Library.BoundedWriter

structure Writer where
  written : List UInt8
  capacity : Nat
  failed : Bool

namespace Writer

def full (writer : Writer) : Bool :=
  writer.written.length = writer.capacity

def fail (writer : Writer) : Writer :=
  { writer with failed := true }

def append (writer : Writer) (content : List UInt8) : Writer :=
  { writer with written := writer.written ++ content }

/-- A block of bytes is written as a whole or not at all. -/
def copy (writer : Writer) (content : List UInt8) : Writer :=
  if writer.capacity - writer.written.length < content.length then writer.fail else writer.append content

@[simp] theorem append_nil (writer : Writer) : writer.append [] = writer := by
  rw [append, List.append_nil]

@[simp] theorem append_append (writer : Writer) (first second : List UInt8) :
    (writer.append first).append second = writer.append (first ++ second) := by
  rw [append, append, append, List.append_assoc]

@[simp] theorem append_capacity (writer : Writer) (content : List UInt8) :
    (writer.append content).capacity = writer.capacity := rfl

@[simp] theorem append_written (writer : Writer) (content : List UInt8) :
    (writer.append content).written = writer.written ++ content := rfl

end Writer

/-- The function writes the content where there is room for it. -/
def Writes (write : Writer → Writer) (content : List UInt8) : Prop :=
  ∀ writer : Writer, writer.written.length + content.length ≤ writer.capacity → write writer = writer.append content

namespace Writes

variable {first second write : Writer → Writer} {left right content : List UInt8}

theorem nothing : Writes id [] := by
  intro writer _
  rw [id, Writer.append_nil]

theorem comp (leftWritten : Writes first left) (rightWritten : Writes second right) :
    Writes (fun writer => second (first writer)) (left ++ right) := by
  intro writer room
  rw [List.length_append] at room
  simp only []
  rw [leftWritten writer (by omega), rightWritten, Writer.append_append]
  rw [Writer.append_written, Writer.append_capacity, List.length_append]
  omega

theorem copy (content : List UInt8) : Writes (Writer.copy · content) content := by
  intro writer room
  simp only [Writer.copy]
  rw [if_neg (by omega)]

theorem foldl {α : Type*} {step : Writer → α → Writer} {contentOf : α → List UInt8} (items : List α)
    (each : ∀ item ∈ items, Writes (step · item) (contentOf item)) :
    Writes (items.foldl step ·) (items.flatMap contentOf) := by
  induction items with
  | nil => exact nothing
  | cons item items inductionHypothesis =>
    rw [List.flatMap_cons]
    have here := each item List.mem_cons_self
    have behind := inductionHypothesis fun other member => each other (List.mem_cons_of_mem _ member)
    exact here.comp behind

/-- A buffer of exactly the size of the content is full, and nothing failed. -/
theorem fills (written : Writes write content) :
    write ⟨[], content.length, false⟩ = ⟨content, content.length, false⟩ := by
  rw [written _ (by rw [List.length_nil, Nat.zero_add])]
  rfl

end Writes

end SqlParser.Library.BoundedWriter
