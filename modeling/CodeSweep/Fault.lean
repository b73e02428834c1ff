import CodeSweep.Path

/-!
# Faults

Everything that can go wrong, as causes. The wording of a cause is given by `message`, and
`chain` lists a fault's message followed by those of its causes.
-/

namespace CodeSweep

/-- Why a file, a directory or a program could not be used. -/
inductive IoFault where
  | notFound
  | permissionDenied
  | fileExists
  | notADirectory
  | isADirectory
  | nameTooLong
  | tooManyLinks
  | zeroInName
  | notText
  | unreadableConfig (path : Path) (cause : IoFault)
  | stated (text : String)
deriving DecidableEq, Inhabited

/-- The wording of an I/O fault. -/
def IoFault.message : IoFault → String
  | .notFound => "No such file or directory (os error 2)"
  | .permissionDenied => "Permission denied (os error 13)"
  | .fileExists => "File exists (os error 17)"
  | .notADirectory => "Not a directory (os error 20)"
  | .isADirectory => "Is a directory (os error 21)"
  | .nameTooLong => "File name too long (os error 36)"
  | .tooManyLinks => "Too many levels of symbolic links (os error 40)"
  | .zeroInName => "file name contained an unexpected NUL byte"
  | .notText => "stream did not contain valid UTF-8"
  | .unreadableConfig path cause =>
    s!"Failed to read config file {path.text}: {cause.message}"
  | .stated text => text

/-- Why a glob cannot be read. -/
inductive GlobFault where
  | unclosedClass
  | invalidRange (first last : Char)
  | unclosedAlternates
  | unopenedAlternates
  | danglingEscape
deriving DecidableEq, Inhabited

/-- The wording of a glob fault. -/
def GlobFault.message : GlobFault → String
  | .unclosedClass => "unclosed character class; missing ']'"
  | .invalidRange first last => s!"invalid range; '{first}' > '{last}'"
  | .unclosedAlternates =>
    "unclosed alternate group; missing '\x7d' (maybe escape '\x7b' with '[\x7b]'?)"
  | .unopenedAlternates =>
    "unopened alternate group; missing '\x7b' (maybe escape '\x7d' with '[\x7d]'?)"
  | .danglingEscape => "dangling '\\'"

/-- What is wrong with a configuration, a rule or a caller's wish. -/
inductive ConfigFault where
  | notYaml
  | duplicateName (name : String)
  | blankName
  | noStages (codemod : String)
  | unknownLanguage (codemod language : String)
  | uncompiledQuery (codemod : String) (stage : Nat) (languages : List String)
  | unknownCapture (capture query : String)
  | stated (text : String)
deriving DecidableEq, Inhabited

/-- The wording of a configuration fault. -/
def ConfigFault.message : ConfigFault → String
  | .notYaml => "Failed to parse YAML config"
  | .duplicateName name => s!"duplicate codemod name '{name}'"
  | .blankName => "codemod name is empty"
  | .noStages codemod => s!"codemod '{codemod}' has no stages"
  | .unknownLanguage codemod language =>
    s!"codemod '{codemod}' declares unknown language '{language}'"
  | .uncompiledQuery codemod stage languages =>
    let tried := ", ".intercalate languages
    s!"codemod '{codemod}' stage {stage}: query does not compile for {tried}"
  | .unknownCapture capture query =>
    s!"capture '@{capture}' is not defined by query '{query}'"
  | .stated text => text

/-- Which operation on a repository did not succeed. -/
inductive GitFailure where
  | clone
  | checkout (branch : String)
  | mainBranch
  | push (reason : String)
  | rebase
  | commit
  | command (line reason : String)
  | invariant (reason : String)
deriving DecidableEq, Inhabited

/-- The wording of a failed operation on the repository at `address`. -/
def GitFailure.message (address : String) : GitFailure → String
  | .clone => s!"git clone failed for {address}"
  | .checkout branch => s!"git checkout failed for {address}, couldn't checkout to {branch}"
  | .mainBranch => s!"failed to get main branch for {address}"
  | .push reason => s!"git push failed for {address}; message: {reason}"
  | .rebase => s!"git rebase failed for {address}"
  | .commit => s!"git commit failed for {address}"
  | .command line reason => s!"`{line}` failed in {address}: {reason}"
  | .invariant reason => s!"invariant violated for {address}: {reason}"

/-- Whether the failure is a broken invariant and not an expected refusal. -/
def GitFailure.isInvariant : GitFailure → Bool
  | .invariant _ => true
  | _ => false

/-- Anything that can stop a codemod, a file or a repository. -/
inductive Fault where
  | io (cause : IoFault)
  | walk (path : Path) (cause : IoFault)
  | glob (text : String) (cause : GlobFault)
  | json
  | parse (language reason : String)
  | query (text : String)
  | unsupportedLanguage (subject : String)
  | transform (path : Path) (reason : String)
  | hook (name reason : String)
  | config (cause : ConfigFault)
  | invariant (reason : String)
  | git (failure : GitFailure) (address : String) (cause : Option Fault)
  | hosting (reason : String)
deriving Inhabited

/-- A failed operation on one repository, with what made it fail. -/
structure GitFault where
  failure : GitFailure
  address : String
  cause : Option Fault := none
deriving Inhabited

/-- A failed operation on a repository as a fault. -/
def GitFault.toFault (f : GitFault) : Fault := .git f.failure f.address f.cause

/-- The wording of a failed operation on a repository. -/
def GitFault.message (f : GitFault) : String := f.failure.message f.address

namespace Fault

/-- What a walk says of an entry it cannot read. -/
def walkMessage (path : Path) (cause : IoFault) : String :=
  s!"IO error for operation on {path.text}: {cause.message}"

/-- What is said of a glob that cannot be read. -/
def globMessage (text : String) (cause : GlobFault) : String :=
  s!"error parsing glob '{text}': {cause.message}"

/-- The wording of a fault, without its causes. -/
def message : Fault → String
  | .io cause => s!"IO error: {cause.message}"
  | .walk path cause => s!"Directory walk error: {walkMessage path cause}"
  | .glob text cause => s!"Glob pattern error: {globMessage text cause}"
  | .json => "JSON error"
  | .parse language reason => s!"Tree-sitter parse error for {language}: {reason}"
  | .query text => s!"Tree-sitter query error: {text}"
  | .unsupportedLanguage subject => s!"Language not supported: {subject}"
  | .transform path reason => s!"Transform failed for {path.text}: {reason}"
  | .hook name reason => s!"Hook '{name}' failed: {reason}"
  | .config cause => s!"Invalid configuration: {cause.message}"
  | .invariant reason => s!"Invariant violated: {reason}"
  | .git failure address _ => failure.message address
  | .hosting reason => s!"GitHub API error: {reason}"

/-- The messages of a fault and of its causes, outermost first. -/
def chain : Fault → List String
  | .io cause => [message (.io cause), cause.message]
  | .walk path cause => [message (.walk path cause), walkMessage path cause, cause.message]
  | .glob text cause => [message (.glob text cause), globMessage text cause]
  | .query text => [message (.query text), text]
  | .git failure address none => [failure.message address]
  | .git failure address (some cause) => failure.message address :: chain cause
  | fault => [message fault]

end Fault

end CodeSweep
