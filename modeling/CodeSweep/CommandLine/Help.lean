import CodeSweep.CommandLine.Arguments

/-!
# Help texts

What a command takes, told in columns.
-/

namespace CodeSweep.CommandLine

/-- The name of an argument's value in a help text. -/
def valueName (name : String) : String := name.map Char.toUpper

/-- Rows of two columns. -/
def columns (rows : List (String × String)) : String :=
  let width := rows.foldl (fun w row => max w row.1.length) 0
  let line (row : String × String) : String :=
    "  " ++ row.1.pushn ' ' (width - row.1.length) ++ "  " ++ row.2 ++ "\n"
  String.join (rows.map line)

/-- A titled part of a help text; an empty one is left out. -/
def part (title : String) (rows : List (String × String)) : List String :=
  if rows.isEmpty then [] else [title ++ ":\n" ++ columns rows]

/-- A help text of several parts. -/
def helpText (about usage : String) (parts : List String) : String :=
  "\n".intercalate ([about ++ "\n", "Usage: " ++ usage ++ "\n"] ++ parts)

namespace Switch

/-- How the switch is written by its name. -/
def spelled (s : Switch) : String :=
  if s.kind = .nothing then s!"--{s.name}" else s!"--{s.name} <{valueName s.name}>"

/-- How the switch is written, by letter and by name. -/
def row (s : Switch) : String × String :=
  let letter := match s.letter with
    | some c => s!"-{c}, "
    | none => "    "
  (letter ++ s.spelled, s.about)

end Switch

namespace Operand

/-- How the operand is written: in square brackets when it may be missing. -/
def spelled (o : Operand) : String :=
  if o.missing.isSome then s!"[{valueName o.name}]" else s!"<{valueName o.name}>"

/-- The operand, what it is, and what it is when it is missing. -/
def row (o : Operand) : String × String :=
  let fallback := match o.missing with
    | some text => s!" [default: {text}]"
    | none => ""
  (o.spelled, o.about ++ fallback)

end Operand

/-- The switch that every command takes. -/
def helpRow : String × String := ("-h, --help", "Print help")

/-- How a command is used. -/
def Form.usage (program : String) (form : Form) : String :=
  let options := if form.switches.all (·.required) then [] else ["[OPTIONS]"]
  let needed := (form.switches.filter (·.required)).map (·.spelled)
  let operand := form.operand.toList.map (·.spelled)
  " ".intercalate ([program, form.name] ++ options ++ needed ++ operand)

/-- The help text of a command. -/
def Form.help (program : String) (form : Form) : String :=
  helpText form.about (form.usage program)
    (part "Arguments" (form.operand.toList.map (·.row)) ++
      part "Options" (form.switches.map (·.row) ++ [helpRow]))

end CodeSweep.CommandLine
