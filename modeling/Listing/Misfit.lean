import Listing.Json.Kind
import Listing.Json.Display

namespace Listing

-- Why a value does not have the form that a step needs.
inductive Misfit where
  | missingField (key : String)
  -- the value has no such operation at all
  | noOperation
  | notSubscriptable (kind : Json.Kind)
  | notIterable (kind : Json.Kind)
  | notHashable (kind : Json.Kind)
  | notConvertible (kind : Json.Kind)
  | wrongType
  | noOffset
  | notInteger (text : String)
  | nanToInteger
  | infinityToInteger
  | integerTooLarge
  | indentTooWide
  | outOfMemory
  | unknownOperandKind (kind : Json)
  | unknownExpressionKind (kind : Json)
  | immediateNotInteger (value : Json)
  | unknownOperandType (type : Json)
  | tooFewValues (found : Nat)
  | tooManyValues
  | notAnOperand (value : Json)
  | notAnEvent (value : Json)
  | notARegister (value : Json)
deriving DecidableEq, Repr

namespace Misfit

-- Which rule was broken, whatever the value was.
inductive Breach where
  | missing
  | operation
  | type
  | value
  | overflow
  | memory
deriving DecidableEq, Repr

def breach : Misfit → Breach
  | missingField _ => .missing
  | noOperation => .operation
  | notSubscriptable _ | notIterable _ | notHashable _ | notConvertible _ | wrongType | noOffset
  | notAnOperand _ | notAnEvent _ | notARegister _ => .type
  | notInteger _ | nanToInteger | unknownOperandKind _ | unknownExpressionKind _
  | immediateNotInteger _ | unknownOperandType _ | tooFewValues _ | tooManyValues => .value
  | infinityToInteger | integerTooLarge | indentTooWide => .overflow
  | outOfMemory => .memory

def Breach.name : Breach → String
  | missing => "KeyError"
  | operation => "AttributeError"
  | type => "TypeError"
  | value => "ValueError"
  | overflow => "OverflowError"
  | memory => "MemoryError"

-- The value shown in a failed conversion is cut at this length.
def shownLimit : Nat := 200

def message : Misfit → String
  | missingField key => Text.quoted key
  | noOperation => ""
  | notSubscriptable .arr => "list indices must be integers or slices, not str"
  | notSubscriptable .str => "string indices must be integers, not 'str'"
  | notSubscriptable kind => s!"'{kind.name}' object is not subscriptable"
  | notIterable kind => s!"'{kind.name}' object is not iterable"
  | notHashable kind => s!"unhashable type: '{kind.name}'"
  | notConvertible kind =>
    "int() argument must be a string, a bytes-like object or a real number, not " ++
      s!"'{kind.name}'"
  | wrongType => ""
  | noOffset => "unsupported operand type(s) for +: 'int' and 'list'"
  | notInteger text =>
    "invalid literal for int() with base 10: " ++
      String.ofList ((Text.quotedChars text.toList).take shownLimit)
  | nanToInteger => "cannot convert float NaN to integer"
  | infinityToInteger => "cannot convert float infinity to integer"
  | integerTooLarge => "int too large to convert to float"
  | indentTooWide => "cannot fit 'int' into an index-sized integer"
  | outOfMemory => ""
  | unknownOperandKind kind => s!"unknown operand kind {kind.display}"
  | unknownExpressionKind kind => s!"unknown expression kind {kind.display}"
  | immediateNotInteger value =>
    s!"imm operand value must be an integer, got {value.display}"
  | unknownOperandType type => s!"unknown operand type {type.display}"
  | tooFewValues found => s!"not enough values to unpack (expected 2, got {found})"
  | tooManyValues => "too many values to unpack (expected 2)"
  | notAnOperand value => s!"not an operand: {value.display}"
  | notAnEvent value => s!"not an event: {value.display}"
  | notARegister value => s!"register must be an id or a name, got {value.display}"

-- Only some of the texts are part of an answer.
def hasMessage : Misfit → Bool
  | notAnOperand _ | notAnEvent _ | notARegister _ => true
  | m => m.breach = .missing || m.breach = .value

end Misfit
end Listing
