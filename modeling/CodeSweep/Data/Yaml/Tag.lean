import CodeSweep.Data
import CodeSweep.Data.Json
import CodeSweep.Data.Yaml.Cursor

/-!
# Tags in YAML

A tag is written in full between angle brackets, or as a handle and the rest of its name. Directives
at the start of a document say what its handles stand for. Octets of a name may be written as a
percent sign and two hexadecimal digits, in groups that look like characters.
-/

namespace CodeSweep.Data.Yaml

/-- A tag as it is written: a handle, none for a tag in full, and the rest. -/
structure TagName where
  handle : String
  rest : List UInt8
deriving DecidableEq, Inhabited

/-- What a handle stands for. -/
structure Handle where
  name : String
  octets : List UInt8
deriving DecidableEq, Inhabited

/-- The handles of every document, unless it says otherwise. -/
def commonHandles : List Handle :=
  [⟨"!", (Tag.ofText "!").octets⟩, ⟨"!!", (Tag.ofText "tag:yaml.org,2002:").octets⟩]

/-- The tag that a written one means. -/
def TagName.resolve? (handles : List Handle) (t : TagName) : Option Tag :=
  if t.handle.isEmpty then some ⟨t.rest⟩
  else (handles.find? (·.name == t.handle)).map fun h => ⟨h.octets ++ t.rest⟩

/-- The signs, beside those of names, that a tag is made of. -/
def tagSigns : List Char :=
  [';', '/', '?', ':', '@', '&', '=', '+', '$', '.', '%', '!', '~', '*', '\'', '(', ')']

/-- Whether a character may stand in a tag; in a full one more are allowed. -/
def isTagChar (full : Bool) (c : Char) : Bool :=
  isNameChar c || tagSigns.contains c || (full && (c == ',' || c == '[' || c == ']'))

/-- The octet that is written here with a percent sign. -/
def octet? : List Char → Option Nat
  | '%' :: a :: b :: _ =>
    (Json.hexDigit? a).bind fun a => (Json.hexDigit? b).map fun b => a * 16 + b
  | _ => none

/-- The number of octets of a character, by its first one. -/
def groupSize? (octet : Nat) : Option Nat :=
  if octet < 0x80 then some 1
  else if 0xc0 ≤ octet ∧ octet < 0xe0 then some 2
  else if 0xe0 ≤ octet ∧ octet < 0xf0 then some 3
  else if 0xf0 ≤ octet ∧ octet < 0xf8 then some 4
  else none

/-- Some further octets of a character. -/
def furtherOctets? : Nat → List Char → Option (List UInt8)
  | 0, _ => some []
  | n + 1, cs =>
    (octet? cs).bind fun o =>
      if 0x80 ≤ o ∧ o < 0xc0 then (furtherOctets? n (cs.drop 3)).map (o.toUInt8 :: ·) else none

/-- The octets of a character that is written with percent signs. -/
def octetGroup? (cs : List Char) : Option (List UInt8) :=
  (octet? cs).bind fun o =>
    (groupSize? o).bind fun n => (furtherOctets? (n - 1) (cs.drop 3)).map (o.toUInt8 :: ·)

/-- Reads the rest of a tag, and gives the place after it. -/
def tagRest? (full : Bool) : Nat → Cursor → Option (List UInt8 × Cursor)
  | 0, c => some ([], c)
  | fuel + 1, c =>
    match c.rest with
    | [] => some ([], c)
    | ch :: _ =>
      if ch == '%' then
        (octetGroup? c.rest).bind fun group =>
          (tagRest? full fuel (c.skip (3 * group.length))).map fun (os, c) => (group ++ os, c)
      else if isTagChar full ch then
        (tagRest? full fuel c.next).map fun (os, c) => (ch.toNat.toUInt8 :: os, c)
      else some ([], c)

/-- Reads the rest of a tag, which is not empty and ends at a zero octet. -/
def tagRestSome? (full : Bool) (c : Cursor) : Option (List UInt8 × Cursor) :=
  (tagRest? full c.rest.length c).bind fun (os, after) =>
    if after.index == c.index then none else some (os.takeWhile (· != 0), after)

/-- The handle here: an exclamation mark, a name, and another mark if it is there. -/
def handleAt? (c : Cursor) : Option (String × Cursor) :=
  if !c.sees '!' then none
  else
    let named := c.next.skipWhile isNameChar
    let after := if named.sees '!' then named.next else named
    some (String.ofList (c.rest.take (after.index - c.index)), after)

/-- Whether a handle is closed by a mark of its own. -/
def isClosed (handle : String) : Bool := 1 < handle.length && handle.endsWith "!"

/-- Reads the tag that begins here. -/
def tagName? (c : Cursor) : Option (TagName × Cursor) :=
  if (c.skip 1).sees '<' then
    (tagRestSome? true (c.skip 2)).bind fun (rest, after) =>
      if after.sees '>' then some (⟨"", rest⟩, after.next) else none
  else
    (handleAt? c).bind fun (handle, after) =>
      if isClosed handle then
        (tagRestSome? false after).map fun (rest, after) => (⟨handle, rest⟩, after)
      else
        (tagRest? false c.rest.length c.next).map fun (os, after) =>
          let rest := os.takeWhile (· != 0)
          (if rest.isEmpty then ⟨"", (Tag.ofText "!").octets⟩ else ⟨"!", rest⟩, after)

/-! ### Directives -/

/-- What a document says about itself. -/
inductive Directive where
  | version (major minor : Nat)
  | handle (handle : Handle)
deriving DecidableEq

/-- A number of up to nine digits. -/
def versionNumber? (c : Cursor) : Option (Nat × Cursor) :=
  let digits := c.rest.takeWhile Char.isDigit
  if digits.isEmpty || 9 < digits.length then none
  else some (digits.foldl (fun n d => n * 10 + (d.toNat - '0'.toNat)) 0, c.skip digits.length)

/-- Reads the numbers of a version. -/
def version? (c : Cursor) : Option (Directive × Cursor) := do
  let (major, c) ← versionNumber? c
  if !c.sees '.' then none
  let (minor, c) ← versionNumber? c.next
  return (.version major minor, c)

/-- Reads a handle and what it stands for. -/
def handle? (c : Cursor) : Option (Directive × Cursor) := do
  let (name, c) ← handleAt? c
  if !(name == "!" || isClosed name) then none
  let value := c.skipWhile isBlank
  if value.index == c.index then none
  let (octets, c) ← tagRestSome? true value
  if endsWord c.rest then return (.handle ⟨name, octets⟩, c) else none

/-- Reads the directive that begins here with its sign, and the line break after it. -/
def directive? (c : Cursor) : Option (Directive × Cursor) := do
  let named := c.next.skipWhile isNameChar
  let name := String.ofList (c.next.rest.take (named.index - c.next.index))
  if !endsWord named.rest then none
  let value := named.skipWhile isBlank
  let (d, c) ← if name == "YAML" then version? value else if name == "TAG" then handle? value else none
  return (d, ← c.finishLine?)

end CodeSweep.Data.Yaml
