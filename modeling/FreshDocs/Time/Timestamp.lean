/-!
Points in time. The same clock stamps what is stored, times what expires and wakes what waits,
so one type serves for all three.
-/

namespace FreshDocs

/-- A point in time: whole seconds since 1970 in UTC, and nanoseconds within that second. A
leap second repeats the second before it, with nanoseconds from one thousand million on. -/
structure Timestamp where
  second : Int
  nano : Nat
  nano_lt : nano < 2000000000 := by omega
  deriving DecidableEq

namespace Timestamp

def toNanos (t : Timestamp) : Int :=
  t.second * 1000000000 + t.nano

def ofNanos (nanos : Int) : Timestamp :=
  { second := nanos / 1000000000
    nano := (nanos % 1000000000).toNat }

@[simp] theorem toNanos_ofNanos (nanos : Int) : (ofNanos nanos).toNanos = nanos := by
  simp only [toNanos, ofNanos]
  omega

/-- The time `millis` milliseconds later, or earlier if that is negative. -/
def addMillis (t : Timestamp) (millis : Int) : Timestamp :=
  ofNanos (t.toNanos + millis * 1000000)

/-- Nanoseconds from `earlier` to `later`. Neither is taken to lie in a leap second: a clock shows none, and time
that runs on after one is not counted twice. -/
def nanosSince (later earlier : Timestamp) : Int :=
  later.toNanos - earlier.toNanos

/-- Whole milliseconds between two times outside leap seconds, whichever comes first. -/
def gapMillis (a b : Timestamp) : Nat :=
  (a.nanosSince b).natAbs / 1000000

/-- Whether more than `millis` milliseconds have passed since `start`. -/
def olderThan (millis : Nat) (start now : Timestamp) : Bool :=
  decide ((millis : Int) * 1000000 < now.nanosSince start)

instance : LE Timestamp := ⟨fun a b => a.toNanos ≤ b.toNanos⟩
instance : LT Timestamp := ⟨fun a b => a.toNanos < b.toNanos⟩
instance (a b : Timestamp) : Decidable (a ≤ b) := inferInstanceAs (Decidable (a.toNanos ≤ b.toNanos))
instance (a b : Timestamp) : Decidable (a < b) := inferInstanceAs (Decidable (a.toNanos < b.toNanos))

theorem lt_addMillis (t : Timestamp) {millis : Nat} (some : millis ≠ 0) : t < t.addMillis millis := by
  change t.toNanos < (t.addMillis millis).toNanos
  rw [addMillis, toNanos_ofNanos]
  omega

def earlier (a b : Timestamp) : Timestamp :=
  if b < a then b else a

theorem toNanos_earlier (a b : Timestamp) : (earlier a b).toNanos = min a.toNanos b.toNanos := by
  unfold earlier
  split
  next less => exact (Int.min_eq_right (Int.le_of_lt less)).symm
  next more => exact (Int.min_eq_left (Int.not_lt.mp more)).symm

/-- The earlier of two times that may be missing. -/
def earlier? : Option Timestamp → Option Timestamp → Option Timestamp
  | some a, some b => some (earlier a b)
  | some a, none => some a
  | none, b => b

/-- Midnight at the start of 1970. -/
def epoch : Timestamp := ⟨0, 0, by decide⟩

end Timestamp
end FreshDocs
