import CodeSweep.Path

/-!
# Languages

A codemod declares the languages it applies to by name. A name resolves to the file extensions it
selects and to the grammar its files are parsed with. A name that no language answers to resolves
to no extensions at all, and no extensions mean no restriction.
-/

namespace CodeSweep

/-- A language that files can be parsed in. Extensions are written with their dot. -/
structure Language where
  name : String
  aliases : List String := []
  extensions : List String
deriving DecidableEq, Inhabited

namespace Language

/-- All known languages; where two answer, the earlier one does. -/
def all : List Language := [
  { name := "typescript", aliases := ["ts"], extensions := [".js", ".cjs", ".mjs", ".ts", ".mts"] },
  { name := "tsx", extensions := [".jsx", ".tsx"] },
  { name := "jsx", extensions := [".jsx"] },
  { name := "javascript", aliases := ["js"], extensions := [".js", ".cjs", ".mjs"] },
  { name := "rust", aliases := ["rs"], extensions := [".rs"] },
  { name := "python", aliases := ["py"], extensions := [".py", ".pyi"] },
  { name := "go", aliases := ["golang"], extensions := [".go"] },
  { name := "java", extensions := [".java"] },
  { name := "csharp", aliases := ["c#", "cs"], extensions := [".cs", ".csx"] },
  { name := "ruby", aliases := ["rb"], extensions := [".rb", ".rake", ".gemspec"] }]

/-- The text without its leading dots. -/
def bare (ext : String) : String := String.ofList (ext.toList.dropWhile (· == '.'))

/-- Whether the language claims files of that extension, written with or without dots and in
either case. -/
def claims (l : Language) (ext : String) : Bool :=
  l.extensions.any fun e => Text.sameIgnoringCase (bare e) (bare ext)

/-- Whether the language has that name or alias, in either case. -/
def answersTo (l : Language) (name : String) : Bool :=
  Text.sameIgnoringCase l.name name || l.aliases.any fun a => Text.sameIgnoringCase a name

/-- The language of that name or alias. -/
def lookup? (name : String) : Option Language := all.find? (·.answersTo name)

/-- The extensions that a declared name selects. -/
def resolve (name : String) : List String :=
  match lookup? name with
  | some l => l.extensions
  | none => []

/-- The language of a file, by its extension. -/
def detect? (path : Path) : Option Language :=
  path.extension.bind fun ext => all.find? (·.claims ext)

end Language

/-- The extension of a path with its dot. -/
def Path.dottedExtension (path : Path) : Option String := path.extension.map ("." ++ ·)

end CodeSweep
