import CodeSweep.Text.Search

/-!
# Command-line arguments

A command declares which switches it takes and whether it takes an operand. Its arguments are read
from left to right:

* a word is the operand, or the value of the switch right before it;
* `--name` and `-n` name a switch, `--name=value`, `-n=value` and `-nvalue` give its value along;
* after `--` everything is an operand.

Nothing may be given twice, and a path may not be empty.
-/

namespace CodeSweep.CommandLine

/-- What comes with a switch. -/
inductive ValueKind where
  | nothing
  | text
  /-- A text that is not empty. -/
  | path
deriving DecidableEq, Inhabited

/-- An argument that goes by a name. -/
structure Switch where
  name : String
  letter : Option Char := none
  kind : ValueKind
  required : Bool := false
  about : String
deriving DecidableEq, Inhabited

/-- An argument that goes by its place. -/
structure Operand where
  name : String
  missing : Option String := none
  about : String
deriving DecidableEq, Inhabited

/-- What a command takes. -/
structure Form where
  name : String
  operand : Option Operand := none
  switches : List Switch := []
  about : String
deriving DecidableEq, Inhabited

/-- The values that were given, by the name of their argument. -/
abbrev Given := List (String × String)

/-- Why reading stopped: the arguments do not fit, or help or the version is asked for. -/
inductive Stop where
  | misuse
  | help (topic : Option String)
  | version
deriving DecidableEq, Inhabited

/-- What an argument is by its spelling. -/
inductive Token where
  | word (text : String)
  | named (name : String) (value : Option String)
  | letters (letters : List Char)
deriving DecidableEq, Inhabited

/-- Reads the spelling of an argument. A lone dash is a word. -/
def Token.ofArg (arg : String) : Token :=
  match arg.toList with
  | '-' :: '-' :: cs =>
    match Text.splitFirst? ['='] cs with
    | some (name, value) => .named (String.ofList name) (some (String.ofList value))
    | none => .named (String.ofList cs) none
  | '-' :: c :: cs => .letters (c :: cs)
  | _ => .word arg

namespace Given

/-- Adds a value of a kind under a name. -/
def put (given : Given) (name : String) (kind : ValueKind) (value : String) : Except Stop Given :=
  if (given.lookup name).isSome || (kind == .path && value.isEmpty) then .error .misuse
  else .ok ((name, value) :: given)

/-- Whether something was given under a name. -/
def has (given : Given) (name : String) : Bool := (given.lookup name).isSome

/-- The text given under a name, else the empty one. -/
def text (given : Given) (name : String) : String := (given.lookup name).getD ""

end Given

namespace Form

/-- Takes a word as the operand. -/
def takeWord (form : Form) (given : Given) (word : String) : Except Stop Given :=
  match form.operand with
  | some operand => given.put operand.name .path word
  | none => .error .misuse

/-- Takes a switch, with the value that was given along. A switch that wants a value and has none
yet is left over. -/
def takeSwitch (given : Given) (s : Switch) (value : Option String) :
    Except Stop (Given × Option Switch) :=
  match s.kind, value with
  | .nothing, some _ => .error .misuse
  | .nothing, none => (given.put s.name s.kind "").map (·, none)
  | _, some v => (given.put s.name s.kind v).map (·, none)
  | _, none => .ok (given, some s)

/-- Takes letters after a dash. What follows the letter of a switch with a value is that value, with
or without an equals sign. -/
def takeLetters (form : Form) (given : Given) : List Char → Except Stop (Given × Option Switch)
  | [] => .ok (given, none)
  | c :: cs =>
    if c = 'h' then .error (.help (some form.name))
    else
      match form.switches.find? (·.letter == some c) with
      | none => .error .misuse
      | some s =>
        if s.kind = .nothing then
          match given.put s.name s.kind "" with
          | .ok given => form.takeLetters given cs
          | .error stop => .error stop
        else
          takeSwitch given s <|
            match cs with
            | [] => none
            | '=' :: value => some (String.ofList value)
            | value => some (String.ofList value)

/-- Takes one argument; a switch that still wants its value is left over. -/
def take (form : Form) (given : Given) : Token → Except Stop (Given × Option Switch)
  | .word text => (form.takeWord given text).map (·, none)
  | .letters cs => form.takeLetters given cs
  | .named "help" none => .error (.help (some form.name))
  | .named name value =>
    match form.switches.find? (·.name == name) with
    | none => .error .misuse
    | some s => takeSwitch given s value

/-- Takes arguments; the switch, if any, still wants its value. -/
def takeAll (form : Form) : Option Switch → Given → List String → Except Stop Given
  | none, given, [] => .ok given
  | some _, _, [] => .error .misuse
  | some s, given, arg :: rest =>
    match Token.ofArg arg with
    | .word value =>
      match given.put s.name s.kind value with
      | .ok given => form.takeAll none given rest
      | .error stop => .error stop
    | _ => .error .misuse
  | none, given, arg :: rest =>
    if arg = "--" then rest.foldlM form.takeWord given
    else
      match form.take given (Token.ofArg arg) with
      | .ok (given, pending) => form.takeAll pending given rest
      | .error stop => .error stop

/-- Whether all that has to be given was. -/
def isComplete (form : Form) (given : Given) : Bool :=
  form.operand.all (fun o => o.missing.isSome || given.has o.name) &&
    form.switches.all fun s => !s.required || given.has s.name

/-- Reads the arguments of a command. -/
def read (form : Form) (args : List String) : Except Stop Given :=
  match form.takeAll none [] args with
  | .error stop => .error stop
  | .ok given => if form.isComplete given then .ok given else .error .misuse

/-- The operand that was given, or what it is when it is missing. -/
def operandIn (form : Form) (given : Given) : String :=
  match form.operand with
  | none => ""
  | some o => (given.lookup o.name).getD (o.missing.getD "")

end Form

end CodeSweep.CommandLine
