/-!
Reading what was published. A reader that falls behind finds only the newest entries, and is
told how many it has missed.
-/

namespace FreshDocs.Feed

variable {α : Type}

/-- What a reader finds that has seen the first `seen` entries, when `capacity` entries are
kept: how many it has missed, and those that are left. -/
def unread (capacity : Nat) (log : Array α) (seen : Nat) : Nat × List α :=
  let behind := log.size - seen
  let missed := behind - capacity
  (missed, (log.extract (seen + missed) log.size).toList)

end FreshDocs.Feed
