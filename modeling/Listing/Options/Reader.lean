import Listing.Options.Mark

namespace Listing.Options

-- A flag on its way to be taken, with the value that stood in its word.
abbrev Pending (σ : Type) := Flag σ × Option String

-- The flags that a word stands for. Behind a switch with a short name every letter of the attached
-- text is a flag of its own, up to the first that takes a value; a letter that is no flag makes the
-- text one that the switch before it cannot take.
def spread (g : Grammar σ) (f : Flag σ) (isShort : Bool) :
    Option (List Char) → Except Problem (List (Pending σ))
  | none => .ok [(f, none)]
  | some [] =>
    if f.arity = .zero then .error (.ignoredValue f.title "") else .ok [(f, some "")]
  | some (c :: cs) =>
    let text := String.ofList (c :: cs)
    if f.arity ≠ .zero then .ok [(f, some text)]
    else if ¬ isShort then .error (.ignoredValue f.title text)
    else
      match g.find? ['-', c], cs with
      | none, _ => .error (.ignoredValue f.title text)
      | some next, [] => .ok [(f, none), (next, none)]
      | some next, d :: ds => do return (f, none) :: (← spread g next true (some (d :: ds)))
termination_by attached => (attached.getD []).length

-- The words that belong to a flag, of the arguments that follow it.
def wordsOf (f : Flag σ) (available : List String) : Except Problem (List String) :=
  match f.arity with
  | .zero => .ok []
  | .one => if available = [] then .error (.expectedOne f.title) else .ok (available.take 1)
  | .atMostOne => .ok (available.take 1)
  | .atLeastOne => if available = [] then .error (.expectedSome f.title) else .ok available

-- Only the last flag of a word can take words that follow. Two dashes are no value.
def supply (available : List String) :
    List (Pending σ) → Except Problem (List (Flag σ × List String))
  | [] => .ok []
  | (f, some value) :: rest => do
    return (f, if value = "--" then [] else [value]) :: (← supply available rest)
  | (f, none) :: rest => do
    let words ← wordsOf f (if rest.isEmpty then available else [])
    return (f, words) :: (← supply available rest)

-- How far a command line has been read: the settings so far, the options and the operand that
-- were met, and the words that nothing takes.
structure Progress (σ : Type) where
  settings : σ
  seen : List String := []
  extras : List String := []

namespace Progress

def leave (p : Progress σ) (word : String) : Progress σ := { p with extras := p.extras ++ [word] }

def takeFlags (p : Progress σ) : List (Flag σ × List String) → Except Stop (Progress σ)
  | [] => .ok p
  | (f, words) :: rest => do
    let settings ← f.take words p.settings
    { p with settings, seen := f.title :: p.seen }.takeFlags rest

-- The operand is the first argument that no option takes.
def takeOperand? (p : Progress σ) (g : Grammar σ) (word : String) : Option (Progress σ) :=
  match g.operand with
  | some (name, f) =>
    if name ∈ p.seen then none
    else some { p with settings := f word p.settings, seen := name :: p.seen }
  | none => none

end Progress

def liftProblem : Except Problem α → Except Stop α
  | .ok a => .ok a
  | .error p => .error (.problem p)

-- One word that is an option, with the arguments after it; the result says how many were used.
-- All flags of the word get their words before the first of them takes effect.
def takeOption (g : Grammar σ) (p : Progress σ) (f : Flag σ) (isShort : Bool)
    (attached : Option (List Char)) (available : List String) : Except Stop (Progress σ × Nat) := do
  let flags ← liftProblem (spread g f isShort attached)
  let supplied ← liftProblem (supply available flags)
  let used : Nat :=
    match flags.getLast?, supplied.getLast? with
    | some (_, none), some (_, words) => words.length
    | _, _ => 0
  let p ← p.takeFlags supplied
  return (p, used)

-- Words are taken from left to right. Two dashes are passed over beside the operand, and are left
-- over elsewhere.
def consume (g : Grammar σ) (p : Progress σ) : List (Marked σ) → Except Stop (Progress σ)
  | [] => .ok p
  | (_, .option f isShort attached) :: rest => do
    let (p, used) ← takeOption g p f isShort attached ((rest.takeWhile isArgument).map (·.1))
    consume g p (rest.drop used)
  | (w, .unknown) :: rest => consume g (p.leave w) rest
  | (w, .divider) :: (v, .argument) :: rest =>
    match p.takeOperand? g v with
    | some p => consume g p rest
    | none => consume g (p.leave w) ((v, .argument) :: rest)
  | (w, .argument) :: (v, .divider) :: rest =>
    match p.takeOperand? g w with
    | some p => consume g p rest
    | none => consume g (p.leave w) ((v, .divider) :: rest)
  | (w, .argument) :: rest => consume g ((p.takeOperand? g w).getD (p.leave w)) rest
  | (w, .divider) :: rest => consume g (p.leave w) rest
termination_by words => words.length
decreasing_by all_goals simp; try omega

-- The names of what has to be given, the operand first.
def required (g : Grammar σ) : List String :=
  (g.operand.map (·.1)).toList ++ (g.flags.filter (·.isRequired)).map (·.title)

-- Reads a command line onto settings. What is missing is told before what is left over.
def read (g : Grammar σ) (settings : σ) (words : List String) : Except Stop σ := do
  let p ← consume g { settings } (← liftProblem (markAll g words))
  let missing := (required g).filter (· ∉ p.seen)
  if missing ≠ [] then .error (.problem (.missing missing))
  else if p.extras ≠ [] then .error (.problem (.unrecognized p.extras))
  else .ok p.settings

end Listing.Options
