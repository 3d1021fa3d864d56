import Listing.Disk
import Listing.Json.Compare

namespace Listing

-- The variables of the environment, by name.
abbrev Environment := List (String × String)

def Environment.get? (e : Environment) (name : String) : Option String := e.lookup name

-- What a child process leaves behind. A child that a signal ended has the negative number of the
-- signal as its status.
structure Child where
  status : Int := 0
  output : Text.Utf8.Bytes := []
  complaint : Text.Utf8.Bytes := []
  -- how long it ran, in microseconds
  elapsed : Nat := 0
deriving DecidableEq, Repr

-- A command that could not be started, or one that ran.
inductive Launched where
  | refused (r : Refusal)
  | finished (c : Child)
deriving DecidableEq, Repr

structure Command where
  words : List String
  input : Text.Utf8.Bytes := []
deriving DecidableEq, Repr

-- Starting a command may change files.
abbrev Launcher := Disk → Command → Disk × Launched

-- A system on which no program is found.
def Launcher.bare : Launcher := fun d _ => (d, .refused .noSuchFile)

-- No wait is longer than this many milliseconds.
def longestWait : Nat := 2147483647

-- The first number below zero that rounds to no finite one of 64 bits.
def belowAll : Json.Magnitude := .finite (-18014398509481983) 970

-- Whether a child ran as long as a number of seconds. What is no length of time that the system
-- can wait for has no answer.
def Child.exceeds (c : Child) (limit : Json) : Except Misfit Bool :=
  match limit.magnitude? with
  | some (.finite n q) =>
    if (Json.Magnitude.finite (n * 1000) q).compare (.finite longestWait 0) = .gt ∨
        (Json.Magnitude.finite n q).compare belowAll ≠ .gt then
      .error .integerTooLarge
    else .ok ((Json.Magnitude.finite (n * 1000000) q).compare (.finite c.elapsed 0) ≠ .gt)
  | some (.infinite true) => .ok true
  | some (.infinite false) => .error .infinityToInteger
  | none => .error (if limit.isNumber then .nanToInteger else .wrongType)

end Listing
