import Listing.Options.Basic

namespace Listing.Options

-- What a word is taken for before options take words. The attached text stands in one word with
-- the option, right after its name or after an equals sign.
inductive Mark (σ : Type) where
  | argument
  | divider
  | unknown
  | option (flag : Flag σ) (isShort : Bool) (attached : Option (List Char))

abbrev Marked (σ : Type) := String × Mark σ

def isArgument : Marked σ → Bool
  | (_, .argument) => true
  | _ => false

def isShort : List Char → Bool
  | '-' :: '-' :: _ => false
  | _ => true

-- A word cut at its first equals sign.
def splitAssignment (word : List Char) : Option (List Char × List Char) :=
  match word.span (· ≠ '=') with
  | (name, _ :: value) => some (name, value)
  | _ => none

def areDigits (cs : List Char) : Bool := cs ≠ [] && cs.all fun c => (Text.digitValue? c).isSome

-- Negative numbers are words of their own, with a fraction or without.
def isNegativeNumber (word : List Char) : Bool :=
  let word := if word.getLast? = some '\n' then word.dropLast else word
  match word with
  | '-' :: cs =>
    areDigits cs ||
      match cs.span (· ≠ '.') with
      | (whole, _ :: fraction) => (whole = [] || areDigits whole) && areDigits fraction
      | _ => false
  | _ => false

-- The options that a word can mean if it is no option's name: a long one by the start of its
-- name, a short one by its letter with text glued to it.
def readings (g : Grammar σ) (word : List Char) :
    List (List Char × Flag σ × Option (List Char)) :=
  match word with
  | '-' :: '-' :: _ =>
    let (start, attached) : List Char × Option (List Char) :=
      match splitAssignment word with
      | some (name, value) => (name, some value)
      | none => (word, none)
    g.named.filterMap fun (name, f) =>
      if start.isPrefixOf name then some (name, f, attached) else none
  | dash :: letter :: text =>
    g.named.filterMap fun (name, f) =>
      if name = [dash, letter] then some (name, f, some text) else none
  | _ => []

-- A word that starts with a dash and means no option is still an argument if it is a negative
-- number or has a space in it.
def guess (g : Grammar σ) (word : List Char) : Except Problem (Mark σ) :=
  match readings g word with
  | [(name, f, attached)] => .ok (.option f (isShort name) attached)
  | [] => .ok (if isNegativeNumber word || word.contains ' ' then .argument else .unknown)
  | several => .error (.ambiguous (String.ofList word) (several.map fun r => String.ofList r.1))

def mark (g : Grammar σ) (word : List Char) : Except Problem (Mark σ) :=
  match word with
  | '-' :: _ :: _ =>
    match g.find? word with
    | some f => .ok (.option f (isShort word) none)
    | none =>
      match splitAssignment word with
      | some (name, value) =>
        match g.find? name with
        | some f => .ok (.option f (isShort name) (some value))
        | none => guess g word
      | none => guess g word
  | _ => .ok .argument

-- After two dashes that stand alone there are only arguments.
def markAll (g : Grammar σ) : List String → Except Problem (List (Marked σ))
  | [] => .ok []
  | w :: ws =>
    if w = "--" then .ok ((w, .divider) :: ws.map fun w => (w, .argument))
    else do
      let m ← mark g w.toList
      return (w, m) :: (← markAll g ws)

end Listing.Options
