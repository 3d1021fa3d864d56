import Listing.Text.Digits
import Listing.Text.Quoted

namespace Listing.Options

-- Why a command line is refused. Options are shown by all their names.
inductive Problem where
  | ambiguous (word : String) (names : List String)
  | expectedOne (option : String)
  | expectedSome (option : String)
  | ignoredValue (option value : String)
  | notInteger (option value : String)
  | notAChoice (option value : String) (choices : List String)
  | missing (names : List String)
  | unrecognized (words : List String)
deriving DecidableEq, Repr

def Problem.message : Problem → String
  | ambiguous word names =>
    s!"ambiguous option: {word} could match " ++ ", ".intercalate names
  | expectedOne option => s!"argument {option}: expected one argument"
  | expectedSome option => s!"argument {option}: expected at least one argument"
  | ignoredValue option value =>
    s!"argument {option}: ignored explicit argument {Text.quoted value}"
  | notInteger option value => s!"argument {option}: invalid int value: {Text.quoted value}"
  | notAChoice option value choices =>
    s!"argument {option}: invalid choice: {Text.quoted value} (choose from " ++
      ", ".intercalate (choices.map Text.quoted) ++ ")"
  | missing names => "the following arguments are required: " ++ ", ".intercalate names
  | unrecognized words => "unrecognized arguments: " ++ " ".intercalate words

-- What ends the reading of a command line early.
inductive Stop where
  | help
  | problem (p : Problem)
deriving DecidableEq, Repr

-- How many words belong to an option.
inductive Arity where
  | zero
  | one
  | atMostOne
  | atLeastOne
deriving DecidableEq, Repr

-- An option and what its words do to the settings of a command. A name has one dash and one
-- character, or two dashes.
structure Flag (σ : Type) where
  names : List String
  arity : Arity
  take : List String → σ → Except Stop σ
  isRequired : Bool := false

namespace Flag

def titleOf (names : List String) : String := "/".intercalate names

def title (f : Flag σ) : String := titleOf f.names

def help : Flag σ := ⟨["-h", "--help"], .zero, fun _ _ => .error .help, false⟩

def switch (names : List String) (f : σ → σ) : Flag σ :=
  ⟨names, .zero, fun _ s => .ok (f s), false⟩

-- An option that takes one word has none if that word is two dashes.
def text (names : List String) (f : Option String → σ → σ) : Flag σ :=
  ⟨names, .one, fun ws s => .ok (f ws.head? s), false⟩

-- Without a word the option counts as given with an empty one.
def optionalText (names : List String) (f : String → σ → σ) : Flag σ :=
  ⟨names, .atMostOne, fun ws s => .ok (f (ws.head?.getD "") s), false⟩

def texts (names : List String) (f : List String → σ → σ) : Flag σ :=
  ⟨names, .atLeastOne, fun ws s => .ok (f ws s), true⟩

def integer (names : List String) (f : Option Int → σ → σ) : Flag σ :=
  ⟨names, .one, fun ws s =>
    match ws.head? with
    | none => .ok (f none s)
    | some word =>
      match Text.readInteger word.toList with
      | some n => .ok (f (some n) s)
      | none => .error (.problem (.notInteger (titleOf names) word)), false⟩

def choice (names : List String) (choices : List (String × α)) (f : Option α → σ → σ) : Flag σ :=
  ⟨names, .one, fun ws s =>
    match ws.head? with
    | none => .ok (f none s)
    | some word =>
      match choices.lookup word with
      | some a => .ok (f (some a) s)
      | none => .error (.problem (.notAChoice (titleOf names) word (choices.map (·.1)))), false⟩

end Flag

-- The options of a command, and the one word that it may take besides.
structure Grammar (σ : Type) where
  flags : List (Flag σ)
  operand : Option (String × (String → σ → σ)) := none

namespace Grammar

def find? (g : Grammar σ) (name : List Char) : Option (Flag σ) :=
  g.flags.find? fun f => f.names.any (·.toList = name)

-- Every name with its option, in the order of declaration.
def named (g : Grammar σ) : List (List Char × Flag σ) :=
  g.flags.flatMap fun f => f.names.map fun n => (n.toList, f)

end Grammar
end Listing.Options
