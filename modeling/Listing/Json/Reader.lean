import Listing.Json.Basic
import Listing.Text.Digits

namespace Listing.Json

-- Why a text is not JSON.
inductive Flaw where
  | noValue
  | noComma
  | noColon
  | noPropertyName
  | extraData
  | unterminatedText
  | controlCharacter
  | unknownEscape
  | badUnicodeEscape
  | byteOrderMark
deriving DecidableEq, Repr

def Flaw.message : Flaw → String
  | .noValue => "Expecting value"
  | .noComma => "Expecting ',' delimiter"
  | .noColon => "Expecting ':' delimiter"
  | .noPropertyName => "Expecting property name enclosed in double quotes"
  | .extraData => "Extra data"
  | .unterminatedText => "Unterminated string starting at"
  | .controlCharacter => "Invalid control character at"
  | .unknownEscape => "Invalid \\escape"
  | .badUnicodeEscape => "Invalid \\uXXXX escape"
  | .byteOrderMark => "Unexpected UTF-8 BOM (decode using utf-8-sig)"

-- A flaw with the text that begins where it was found.
structure Stop where
  flaw : Flaw
  rest : List Char
deriving DecidableEq, Repr

def isSpace (c : Char) : Bool := c == ' ' || c == '\t' || c == '\n' || c == '\r'

def skipSpace (cs : List Char) : List Char := cs.dropWhile isSpace

def hexUnit? (a b c d : Char) : Option Nat := do
  return (((← Text.hexValue? a) * 16 + (← Text.hexValue? b)) * 16 + (← Text.hexValue? c)) * 16 +
    (← Text.hexValue? d)

def isHighSurrogate (n : Nat) : Bool := 0xd800 ≤ n && n ≤ 0xdbff

def isLowSurrogate (n : Nat) : Bool := 0xdc00 ≤ n && n ≤ 0xdfff

-- What takes the place of half of a surrogate pair, which is no character.
def replacement : Char := '\ufffd'

def unitChar (n : Nat) : Char := if 0xd800 ≤ n ∧ n ≤ 0xdfff then replacement else Char.ofNat n

def joinSurrogates (high low : Nat) : Char :=
  Char.ofNat (0x10000 + (high - 0xd800) * 0x400 + (low - 0xdc00))

def shortEscape? : Char → Option Char
  | '"' => some '"'
  | '\\' => some '\\'
  | '/' => some '/'
  | 'b' => some '\x08'
  | 'f' => some '\x0c'
  | 'n' => some '\n'
  | 'r' => some '\r'
  | 't' => some '\t'
  | _ => none

private def push (c : Char) :
    Except Stop (List Char × List Char) → Except Stop (List Char × List Char)
  | .ok (cs, rest) => .ok (c :: cs, rest)
  | .error e => .error e

-- The characters of a string up to its closing quote. `opening` is the text from the opening
-- quote on, where a string that never ends is reported. Four hexadecimal digits count only if
-- more text follows them.
def readChars (opening : List Char) : List Char → Except Stop (List Char × List Char)
  | [] => .error ⟨.unterminatedText, opening⟩
  | '"' :: rest => .ok ([], rest)
  | ['\\'] => .error ⟨.unterminatedText, opening⟩
  | '\\' :: 'u' :: a :: b :: c :: d :: '\\' :: 'u' :: e :: f :: g :: h :: rest =>
    match hexUnit? a b c d with
    | none =>
      .error ⟨.badUnicodeEscape, 'u' :: a :: b :: c :: d :: '\\' :: 'u' :: e :: f :: g :: h :: rest⟩
    | some unit =>
      if isHighSurrogate unit && !rest.isEmpty then
        match hexUnit? e f g h with
        | none => .error ⟨.badUnicodeEscape, 'u' :: e :: f :: g :: h :: rest⟩
        | some low =>
          if isLowSurrogate low then push (joinSurrogates unit low) (readChars opening rest)
          else
            push (unitChar unit)
              (readChars opening ('\\' :: 'u' :: e :: f :: g :: h :: rest))
      else
        push (unitChar unit) (readChars opening ('\\' :: 'u' :: e :: f :: g :: h :: rest))
  | '\\' :: 'u' :: a :: b :: c :: d :: x :: rest =>
    match hexUnit? a b c d with
    | none => .error ⟨.badUnicodeEscape, 'u' :: a :: b :: c :: d :: x :: rest⟩
    | some unit => push (unitChar unit) (readChars opening (x :: rest))
  | '\\' :: 'u' :: rest => .error ⟨.badUnicodeEscape, 'u' :: rest⟩
  | '\\' :: c :: rest =>
    match shortEscape? c with
    | some e => push e (readChars opening rest)
    | none => .error ⟨.unknownEscape, '\\' :: c :: rest⟩
  | c :: rest =>
    if c.toNat < 0x20 then .error ⟨.controlCharacter, c :: rest⟩
    else push c (readChars opening rest)

-- Whether a text names half of a surrogate pair without the other half, from a place on that may
-- follow the first half. Backslashes stand only in strings, where each takes the character behind it
-- along.
def hasHalfFrom (high : Bool) : List Char → Bool
  | '\\' :: 'u' :: a :: b :: c :: d :: rest =>
    match hexUnit? a b c d with
    | some unit =>
      if isLowSurrogate unit then !high || hasHalfFrom false rest
      else high || hasHalfFrom (isHighSurrogate unit) rest
    | none => high || hasHalfFrom false (a :: b :: c :: d :: rest)
  | '\\' :: _ :: rest => high || hasHalfFrom false rest
  | _ :: rest => high || hasHalfFrom false rest
  | [] => high

def hasHalf (cs : List Char) : Bool := hasHalfFrom false cs

private def digitsOf (cs : List Char) : List Nat := cs.map Text.asciiDigitValue

-- A point counts only with a digit behind it.
def readFraction : List Char → List Char × List Char
  | '.' :: d :: rest =>
    if Text.isAsciiDigit d then
      (d :: rest.takeWhile Text.isAsciiDigit, rest.dropWhile Text.isAsciiDigit)
    else ([], '.' :: d :: rest)
  | cs => ([], cs)

-- An exponent counts only with a digit in it.
def readExponent (cs : List Char) : Option Int × List Char :=
  match cs with
  | c :: rest =>
    if c = 'e' ∨ c = 'E' then
      let (negative, body) : Bool × List Char :=
        match rest with
        | '-' :: r => (true, r)
        | '+' :: r => (false, r)
        | r => (false, r)
      let digits := body.takeWhile Text.isAsciiDigit
      if digits = [] then (none, cs)
      else
        let n := Text.ofDigits (digitsOf digits)
        (some (if negative then -(n : Int) else n), body.dropWhile Text.isAsciiDigit)
    else (none, cs)
  | [] => (none, cs)

-- Without fraction and exponent a number is an integer of any size.
def readNumberTail (negative : Bool) (whole rest : List Char) : Json × List Char :=
  let (fraction, rest) := readFraction rest
  let (exponent, rest) := readExponent rest
  let n := Text.ofDigits (digitsOf (whole ++ fraction))
  match fraction, exponent with
  | [], none => (.int (if negative then -(n : Int) else n), rest)
  | _, _ => (.float (Binary64.ofDecimal negative n (exponent.getD 0 - fraction.length)), rest)

-- A leading zero stands alone.
def readNumber? (cs : List Char) : Option (Json × List Char) :=
  let (negative, body) : Bool × List Char :=
    match cs with
    | '-' :: rest => (true, rest)
    | _ => (false, cs)
  match body with
  | '0' :: rest => some (readNumberTail negative ['0'] rest)
  | c :: rest =>
    if Text.isAsciiDigit c then
      some (readNumberTail negative (c :: rest.takeWhile Text.isAsciiDigit)
        (rest.dropWhile Text.isAsciiDigit))
    else none
  | [] => none

def readScalar (cs : List Char) : Except Stop (Json × List Char) :=
  match cs with
  | 'n' :: 'u' :: 'l' :: 'l' :: rest => .ok (.null, rest)
  | 't' :: 'r' :: 'u' :: 'e' :: rest => .ok (.bool true, rest)
  | 'f' :: 'a' :: 'l' :: 's' :: 'e' :: rest => .ok (.bool false, rest)
  | 'N' :: 'a' :: 'N' :: rest => .ok (.float .nan, rest)
  | 'I' :: 'n' :: 'f' :: 'i' :: 'n' :: 'i' :: 't' :: 'y' :: rest =>
    .ok (.float (.infinite false), rest)
  | '-' :: 'I' :: 'n' :: 'f' :: 'i' :: 'n' :: 'i' :: 't' :: 'y' :: rest =>
    .ok (.float (.infinite true), rest)
  | _ =>
    match readNumber? cs with
    | some found => .ok found
    | none => .error ⟨.noValue, cs⟩

mutual

-- The fuel bounds the nesting and the number of items. Twice the length of the text is enough,
-- since every second call takes a character.
def readValue : (fuel : Nat) → List Char → Except Stop (Json × List Char)
  | 0, cs => .error ⟨.noValue, cs⟩
  | fuel + 1, cs =>
    match cs with
    | '"' :: rest => do
      let (s, rest) ← readChars cs rest
      return (.str (String.ofList s), rest)
    | '[' :: rest =>
      match skipSpace rest with
      | ']' :: rest => .ok (.arr [], rest)
      | rest => do
        let (items, rest) ← readItems fuel rest
        return (.arr items, rest)
    | '{' :: rest =>
      match skipSpace rest with
      | '}' :: rest => .ok (.obj [], rest)
      | rest => do
        let (fields, rest) ← readFields fuel [] rest
        return (.obj fields, rest)
    | _ => readScalar cs

def readItems : (fuel : Nat) → List Char → Except Stop (List Json × List Char)
  | 0, cs => .error ⟨.noValue, cs⟩
  | fuel + 1, cs => do
    let (v, rest) ← readValue fuel cs
    match skipSpace rest with
    | ',' :: rest =>
      let (vs, rest) ← readItems fuel (skipSpace rest)
      return (v :: vs, rest)
    | ']' :: rest => return ([v], rest)
    | rest => .error ⟨.noComma, rest⟩

-- Of two fields with one key the later value counts, at the place of the first.
def readFields : (fuel : Nat) → (sofar : List (String × Json)) → List Char →
    Except Stop (List (String × Json) × List Char)
  | 0, _, cs => .error ⟨.noPropertyName, cs⟩
  | fuel + 1, sofar, cs =>
    match cs with
    | '"' :: rest => do
      let (key, rest) ← readChars cs rest
      match skipSpace rest with
      | ':' :: rest =>
        let (v, rest) ← readValue fuel (skipSpace rest)
        let fields := setField (String.ofList key) v sofar
        match skipSpace rest with
        | ',' :: rest => readFields fuel fields (skipSpace rest)
        | '}' :: rest => return (fields, rest)
        | rest => .error ⟨.noComma, rest⟩
      | rest => .error ⟨.noColon, rest⟩
    | _ => .error ⟨.noPropertyName, cs⟩

end

-- A flaw by its place: the number of characters before it, and the line and column, both
-- counted from one.
structure Misread where
  flaw : Flaw
  position : Nat
  line : Nat
  column : Nat
deriving DecidableEq, Repr

def Stop.locate (stop : Stop) (text : List Char) : Misread :=
  let before := text.take (text.length - stop.rest.length)
  ⟨stop.flaw, before.length, before.count '\n' + 1,
    (before.reverse.takeWhile (· != '\n')).length + 1⟩

def Misread.message (e : Misread) : String :=
  s!"{e.flaw.message}: line {e.line} column {e.column} (char {e.position})"

def readText (text : List Char) : Except Stop Json :=
  match text with
  | '\ufeff' :: _ => .error ⟨.byteOrderMark, text⟩
  | _ => do
    let (v, rest) ← readValue (2 * text.length + 2) (skipSpace text)
    match skipSpace rest with
    | [] => return v
    | rest => .error ⟨.extraData, rest⟩

def read (text : List Char) : Except Misread Json :=
  match readText text with
  | .ok v => .ok v
  | .error stop => .error (stop.locate text)

end Listing.Json
