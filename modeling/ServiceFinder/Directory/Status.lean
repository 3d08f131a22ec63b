/-
  ServiceFinder/Directory/Status.lean
  ===================================
  **How the most recent refresh of a view ended.**
-/

namespace ServiceFinder

inductive CacheStatus where
  | initial
  | refreshed
  | noChange
  | serviceNotFound
  | refreshFailed
deriving DecidableEq, Repr, Inhabited

namespace CacheStatus

/-- The statuses that a watcher is told about. -/
def isChanged : CacheStatus → Bool
  | refreshed | serviceNotFound => true
  | initial | noChange | refreshFailed => false

def name : CacheStatus → String
  | initial => "initial"
  | refreshed => "refreshed"
  | noChange => "no_change"
  | serviceNotFound => "service_not_found"
  | refreshFailed => "refresh_failed"

/-- The number that stands for a status. -/
def code : CacheStatus → UInt8
  | initial => 0
  | refreshed => 1
  | noChange => 2
  | serviceNotFound => 3
  | refreshFailed => 4

/-- A number that stands for no status reads as `initial`. -/
def ofCode (n : UInt8) : CacheStatus :=
  if n = 1 then refreshed
  else if n = 2 then noChange
  else if n = 3 then serviceNotFound
  else if n = 4 then refreshFailed
  else initial

theorem ofCode_code (s : CacheStatus) : ofCode s.code = s := by cases s <;> rfl

def all : List CacheStatus := [initial, refreshed, noChange, serviceNotFound, refreshFailed]

end CacheStatus

end ServiceFinder
