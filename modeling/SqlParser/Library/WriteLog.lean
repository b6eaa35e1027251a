import Mathlib

/-! # Logs of writes

A memory is written place by place.  Where the places of a log differ from each other, what a
write has stored is still there behind the whole log, in whatever order the writes come.
-/

namespace SqlParser.Library.WriteLog

/-- What a write does to a store, the place that it writes, whether there is such a place, and that its value is there. -/
structure Memory (Store Write Place : Type) where
  apply : Store → Write → Store
  place : Write → Place
  Fits : Store → Write → Prop
  Holds : Store → Write → Prop
  fits_apply : ∀ store other write, Fits (apply store other) write ↔ Fits store write
  holds_apply : ∀ store write, Fits store write → Holds (apply store write) write
  holds_other : ∀ store other write, place write ≠ place other → Holds store write → Holds (apply store other) write

variable {Store Write Place : Type} (memory : Memory Store Write Place)

/-- The store behind a log. -/
def Memory.run (store : Store) (log : List Write) : Store :=
  log.foldl memory.apply store

variable {memory} {store : Store} {log later : List Write} {write : Write}

@[simp]
theorem Memory.run_nil : memory.run store [] = store := rfl

theorem Memory.run_cons : memory.run store (write :: log) = memory.run (memory.apply store write) log := rfl

theorem Memory.run_append : memory.run store (log ++ later) = memory.run (memory.run store log) later :=
  List.foldl_append

/-- A log that does not write the place leaves its value. -/
theorem Memory.holds_run_other (apart : ∀ other ∈ log, memory.place write ≠ memory.place other)
    (holds : memory.Holds store write) : memory.Holds (memory.run store log) write := by
  induction log generalizing store with
  | nil => exact holds
  | cons other log inductionHypothesis =>
    rw [run_cons]
    apply inductionHypothesis fun later listed => apart later (List.mem_cons_of_mem _ listed)
    exact memory.holds_other store other write (apart other List.mem_cons_self) holds

/-- Behind a log that writes no place twice, every write holds. -/
theorem Memory.holds_run (distinct : (log.map memory.place).Nodup) (fits : ∀ write ∈ log, memory.Fits store write) :
    ∀ write ∈ log, memory.Holds (memory.run store log) write := by
  induction log generalizing store with
  | nil => exact fun write listed => by cases listed
  | cons first log inductionHypothesis =>
    rw [List.map_cons, List.nodup_cons] at distinct
    intro write listed
    rw [run_cons]
    obtain rfl | later := List.mem_cons.mp listed
    · apply holds_run_other
      · intro other isOther same
        rw [same] at distinct
        exact distinct.1 (List.mem_map_of_mem isOther)
      · exact memory.holds_apply store write (fits write List.mem_cons_self)
    · apply inductionHypothesis distinct.2 ?_ write later
      intro other isOther
      exact (memory.fits_apply store first other).mpr (fits other (List.mem_cons_of_mem _ isOther))

end SqlParser.Library.WriteLog
