import CodeSweep.Data

/-!
# Reading JSON

Reads one JSON value with nothing but white space around it. Objects keep their members in order,
with repetitions; a string with a lone surrogate is no text.
-/

namespace CodeSweep.Data.Json

/-- What is left after white space. -/
def skipBlank (cs : List Char) : List Char :=
  cs.dropWhile fun c => c == ' ' || c == '\t' || c == '\n' || c == '\r'

/-- The value of a hexadecimal digit. -/
def hexDigit? (c : Char) : Option Nat :=
  if '0' ≤ c ∧ c ≤ '9' then some (c.toNat - '0'.toNat)
  else if 'a' ≤ c ∧ c ≤ 'f' then some (c.toNat - 'a'.toNat + 10)
  else if 'A' ≤ c ∧ c ≤ 'F' then some (c.toNat - 'A'.toNat + 10)
  else none

/-- The number that four hexadecimal digits stand for. -/
def hex4? : List Char → Option (Nat × List Char)
  | a :: b :: c :: d :: cs => do
    let a ← hexDigit? a
    let b ← hexDigit? b
    let c ← hexDigit? c
    let d ← hexDigit? d
    return (((a * 16 + b) * 16 + c) * 16 + d, cs)
  | _ => none

/-- One unit of a string: a character, or half of one that stands alone. -/
inductive Unit16 where
  | char (c : Char)
  | lone

/-- Whether a number is the first half of a surrogate pair. -/
def isHigh (n : Nat) : Bool := 0xd800 ≤ n && n < 0xdc00

/-- Whether a number is the second half of a surrogate pair. -/
def isLow (n : Nat) : Bool := 0xdc00 ≤ n && n < 0xe000

/-- The unit after a backslash, and the rest. -/
def escape? : List Char → Option (Unit16 × List Char)
  | 'u' :: cs =>
    match hex4? cs with
    | none => none
    | some (n, rest) =>
      if isHigh n then
        match rest with
        | '\\' :: 'u' :: more =>
          match hex4? more with
          | some (m, after) =>
            if isLow m then
              some (.char (Char.ofNat (0x10000 + (n - 0xd800) * 0x400 + (m - 0xdc00))), after)
            else some (.lone, rest)
          | none => some (.lone, rest)
        | _ => some (.lone, rest)
      else if isLow n then some (.lone, rest)
      else some (.char (Char.ofNat n), rest)
  | '"' :: cs => some (.char '"', cs)
  | '\\' :: cs => some (.char '\\', cs)
  | '/' :: cs => some (.char '/', cs)
  | 'b' :: cs => some (.char '\x08', cs)
  | 'f' :: cs => some (.char '\x0c', cs)
  | 'n' :: cs => some (.char '\n', cs)
  | 'r' :: cs => some (.char '\r', cs)
  | 't' :: cs => some (.char '\t', cs)
  | _ => none

/-- The units of a string after its opening quote, and what follows its closing one. -/
def stringBody : Nat → List Char → Option (List Unit16 × List Char)
  | _, '"' :: cs => some ([], cs)
  | fuel + 1, '\\' :: cs =>
    match escape? cs with
    | some (u, rest) => (stringBody fuel rest).map fun (us, after) => (u :: us, after)
    | none => none
  | fuel + 1, c :: cs =>
    if c.toNat < 32 then none
    else (stringBody fuel cs).map fun (us, after) => (.char c :: us, after)
  | _, _ => none

/-- The character of a unit, unless it stands alone. -/
def Unit16.char? : Unit16 → Option Char
  | .char c => some c
  | .lone => none

/-- The text of the units, if none of them stands alone. -/
def textOf? (us : List Unit16) : Option String := (us.mapM Unit16.char?).map String.ofList

/-- The units of a string as data: text, or something else that may stand where nobody reads it. -/
def ofUnits (us : List Unit16) : Data := ((textOf? us).map Data.quoted).getD .atom

/-- What follows one or more digits. -/
def digits? (cs : List Char) : Option (List Char) :=
  match cs with
  | c :: _ => if c.isDigit then some (cs.dropWhile Char.isDigit) else none
  | [] => none

/-- What follows the whole part of a number. -/
def whole? : List Char → Option (List Char)
  | '0' :: cs => some cs
  | cs => digits? cs

/-- What follows the fraction of a number, if it has one. -/
def fraction? : List Char → Option (List Char)
  | '.' :: cs => digits? cs
  | cs => some cs

/-- What follows the exponent of a number, if it has one. -/
def exponent? : List Char → Option (List Char)
  | 'e' :: cs | 'E' :: cs =>
    match cs with
    | '+' :: rest | '-' :: rest => digits? rest
    | _ => digits? cs
  | cs => some cs

/-- What follows a number. -/
def number? (cs : List Char) : Option (List Char) :=
  let unsigned := match cs with
    | '-' :: rest => rest
    | _ => cs
  (whole? unsigned).bind fun rest => (fraction? rest).bind exponent?

mutual

/-- Reads a value and gives what follows it. -/
def value : Nat → List Char → Option (Data × List Char)
  | 0, _ => none
  | fuel + 1, cs =>
    match skipBlank cs with
    | 'n' :: 'u' :: 'l' :: 'l' :: rest => some (.null, rest)
    | 't' :: 'r' :: 'u' :: 'e' :: rest => some (.atom, rest)
    | 'f' :: 'a' :: 'l' :: 's' :: 'e' :: rest => some (.atom, rest)
    | '"' :: rest =>
      match stringBody rest.length rest with
      | some (us, after) => some (ofUnits us, after)
      | none => none
    | '[' :: rest =>
      match skipBlank rest with
      | ']' :: after => some (.array [], after)
      | _ => (items fuel rest).map fun (ds, after) => (.array ds, after)
    | '\x7b' :: rest =>
      match skipBlank rest with
      | '\x7d' :: after => some (.record [], after)
      | _ => (members fuel rest).map fun (fs, after) => (.record fs, after)
    | other => (number? other).map fun rest => (.atom, rest)

/-- Reads the items of an array up to its closing bracket. -/
def items : Nat → List Char → Option (List Data × List Char)
  | 0, _ => none
  | fuel + 1, cs =>
    match value fuel cs with
    | none => none
    | some (d, rest) =>
      match skipBlank rest with
      | ']' :: after => some ([d], after)
      | ',' :: more => (items fuel more).map fun (ds, after) => (d :: ds, after)
      | _ => none

/-- Reads the members of an object up to its closing brace. -/
def members : Nat → List Char → Option (List (Data × Data) × List Char)
  | 0, _ => none
  | fuel + 1, cs =>
    match skipBlank cs with
    | '"' :: rest =>
      match stringBody rest.length rest with
      | none => none
      | some (us, afterKey) =>
        match skipBlank afterKey with
        | ':' :: more =>
          match value fuel more with
          | none => none
          | some (d, rest) =>
            match skipBlank rest with
            | '\x7d' :: after => some ([(ofUnits us, d)], after)
            | ',' :: more => (members fuel more).map fun (fs, after) => ((ofUnits us, d) :: fs, after)
            | _ => none
        | _ => none
    | _ => none

end

/-- Reads a text that is one JSON value. Every step consumes a character or opens a value, so twice
the length is enough fuel. -/
def read? (s : String) : Option Document :=
  let cs := s.toList
  match value (2 * cs.length + 2) cs with
  | some (d, rest) => if (skipBlank rest).isEmpty then some { root := d } else none
  | none => none

end CodeSweep.Data.Json
