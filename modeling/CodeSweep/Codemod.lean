import CodeSweep.Ordered
import CodeSweep.Stage

/-!
# Codemods

A codemod is a named change of source files: the languages it is for, and what it makes of a file's
text. A declarative codemod is a list of stages; the language it parses a file in is a declared one
that claims the file's extension, else the first declared one, else the one the extension tells.
-/

namespace CodeSweep

/-- A named source transformation. -/
structure Codemod where
  name : String
  /-- Declared language names, in order and each once. -/
  languages : List String
  /-- The new text of the file at a path. -/
  transform : String → Path → Except Fault String
  /-- Which paths it is for; the first component of a path names the repository. -/
  accepts? : Option (Path → Bool) := none
  /-- Whether it wants to be told of each repository's finished files. -/
  watched : Bool := false

namespace Codemod

/-- The extensions of all declared languages, in order and each once. -/
def extensions (c : Codemod) : List String := Ordered.names (c.languages.flatMap Language.resolve)

/-- Whether the codemod is for a path. -/
def accepts (c : Codemod) (path : Path) : Bool := c.accepts?.all (· path)

/-- The language a file is parsed in, among declared ones. -/
def languageFor? (declared : List Language) (path : Path) : Option Language :=
  (path.extension.bind fun ext => declared.find? (·.claims ext)).or
    (declared.head?.or (Language.detect? path))

/-- The codemod that runs `stages` on each file. -/
def ofStages (engine : Engine) (name : String) (languages : List String) (stages : List Stage) :
    Codemod :=
  let languages := Ordered.names languages
  let declared := languages.filterMap Language.lookup?
  { name, languages
    transform := fun text path =>
      match languageFor? declared path with
      | none => .error (.unsupportedLanguage path.text)
      | some language =>
        match Source.ofText engine language text with
        | .error fault => .error fault
        | .ok source => (source.runStages engine stages).map (·.text) }

end Codemod

/-- Whether a file of that path is selected by extensions; no extensions select every file. -/
def Path.isAmong (extensions : List String) (path : Path) : Bool :=
  extensions.isEmpty || path.dottedExtension.any extensions.contains

end CodeSweep
