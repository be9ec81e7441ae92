import SecurityRules.Text.Bytes

/-!
# Progress of a check
-/

namespace SecurityRules.Check

/-- A step of checking one file. -/
inductive Stage where
  | load | cache | parse | diagnose
deriving Repr, DecidableEq

namespace Stage

/-- All stages, in the order of their numbers. -/
def all : List Stage := [.load, .cache, .parse, .diagnose]

def name : Stage → String
  | load => "load"
  | cache => "cache"
  | parse => "parse"
  | diagnose => "diagnose"

end Stage

/-- Where a file is within a stage. -/
inductive Status where
  | queued | working | done | error
deriving Repr, DecidableEq

namespace Status

/-- All states, in the order of their numbers. -/
def all : List Status := [.queued, .working, .done, .error]

def name : Status → String
  | queued => "queued"
  | working => "working"
  | done => "done"
  | error => "error"

end Status

/-- News about one file. -/
structure Event where
  file : Bytes
  stage : Stage
  status : Status
  /-- Whether the result came from the cache. -/
  isCached : Bool := false
  /-- What went wrong, if anything did. -/
  problem : Option Bytes := none
  /-- How long the file has taken so far, in nanoseconds. -/
  elapsed : Int := 0
deriving Repr

end SecurityRules.Check
