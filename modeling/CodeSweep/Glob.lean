import CodeSweep.Fault

/-!
# Globs

A glob describes whole paths as sequences of bytes. It is read into a shape: single bytes, runs of
anything, sequences and choices. A wildcard also stands for slashes; two stars between slashes stand
for any number of directories, none included.
-/

namespace CodeSweep

/-- The bytes a text must consist of. -/
inductive Shape where
  | nothing
  | byte (allowed : UInt8 → Bool)
  | run
  | seq (first second : Shape)
  | either (left right : Shape)

namespace Shape

/-- Marks every place from the first marked one on. -/
def flood (seen : Bool) : List Bool → List Bool
  | [] => []
  | m :: ms => (seen || m) :: flood (seen || m) ms

/-- The places in the bytes, of which there is one before each byte and one at the end, where the
shape can end if it begins at a marked place. -/
def spread (bs : List UInt8) : Shape → List Bool → List Bool
  | .nothing, ms => ms
  | .byte allowed, ms => false :: List.zipWith (fun m b => m && allowed b) ms bs
  | .run, ms => flood false ms
  | .seq first second, ms => second.spread bs (first.spread bs ms)
  | .either left right, ms => List.zipWith (· || ·) (left.spread bs ms) (right.spread bs ms)

/-- Whether the bytes have exactly this shape. -/
def fits (s : Shape) (bs : List UInt8) : Bool :=
  (s.spread bs (true :: bs.map fun _ => false)).getLast? == some true

/-- One given byte. -/
def exactly (b : UInt8) : Shape := .byte (· == b)

/-- The slash. -/
def slash : Shape := exactly 47

/-- One shape after the other. -/
def all (shapes : List Shape) : Shape := shapes.foldr .seq .nothing

/-- Any of the shapes; of none, nothing. -/
def any : List Shape → Shape
  | [] => .nothing
  | [s] => s
  | s :: rest => .either s (any rest)

end Shape

namespace Glob

/-- The bytes of a character. -/
def charBytes (c : Char) : List UInt8 := (String.singleton c).toUTF8.toList

/-- An element of a glob. -/
inductive Token where
  | literal (c : Char)
  | any
  | star
  /-- Two stars that lead a glob or an alternative, with the slash after them. -/
  | leading
  /-- A slash and two stars that end a glob or an alternative. -/
  | trailing
  /-- Two stars between slashes, with both slashes. -/
  | between
  | oneOf (negated : Bool) (ranges : List (Char × Char))
  /-- Alternatives; none of them left when all were empty. -/
  | group (shape : Option Shape)

/-- The ranges of bytes that a range of characters stands for: characters beyond ASCII count byte by
byte, and the range runs from the last byte of its first to the first byte of its last. -/
def byteRanges (r : Char × Char) : List (UInt8 × UInt8) :=
  let first := charBytes r.1
  if r.1 = r.2 then first.map fun b => (b, b)
  else
    let last := charBytes r.2
    first.dropLast.map (fun b => (b, b)) ++
      [(first.getLast?.getD 0, last.head?.getD 0)] ++ last.tail.map fun b => (b, b)

/-- The shape of an element; an empty group has none. -/
def Token.shape? : Token → Option Shape
  | .literal c => some (.all ((charBytes c).map .exactly))
  | .any => some (.byte fun _ => true)
  | .star => some .run
  | .leading => some (.either (.either .slash .nothing) (.seq .run .slash))
  | .trailing => some (.seq .slash .run)
  | .between => some (.either .slash (.seq .slash (.seq .run .slash)))
  | .oneOf negated ranges =>
    let bytes := ranges.flatMap byteRanges
    some (.byte fun b => (bytes.any fun r => r.1 ≤ b && b ≤ r.2) != negated)
  | .group shape => shape

/-- The shape of a sequence of elements, unless all of them are empty. -/
def shapeOf? (tokens : List Token) : Option Shape :=
  match tokens.filterMap Token.shape? with
  | [] => none
  | shapes => some (.all shapes)

/-- A group that is being read: the elements in front of it, last first, and its finished
alternatives, last first. -/
structure Open where
  outer : List Token
  done : List (List Token)

/-- The group of the given alternatives; empty ones do not count. -/
def groupOf (alternatives : List (List Token)) : Token :=
  match alternatives.filterMap shapeOf? with
  | [] => .group none
  | shapes => .group (some (.any shapes))

/-- How far a class has been read. -/
inductive ClassState where
  /-- At its very start. -/
  | start
  | plain
  /-- After a dash that may make a range. -/
  | dash
deriving DecidableEq

/-- Reads a class after its opening bracket and negation. Ranges are collected last first. -/
def classBody (state : ClassState) (ranges : List (Char × Char)) :
    List Char → Except GlobFault (List (Char × Char) × List Char)
  | [] => .error .unclosedClass
  | ']' :: cs =>
    match state with
    | .start => classBody .plain ((']', ']') :: ranges) cs
    | .plain => .ok (ranges.reverse, cs)
    | .dash => .ok ((('-', '-') :: ranges).reverse, cs)
  | c :: cs =>
    match state, ranges with
    | .dash, (first, _) :: before =>
      if c < first then .error (.invalidRange first c) else classBody .plain ((first, c) :: before) cs
    | .plain, _ => if c = '-' then classBody .dash ranges cs else classBody .plain ((c, c) :: ranges) cs
    | _, _ => classBody .plain ((c, c) :: ranges) cs

/-- Reading a class leaves less to read. -/
theorem length_of_classBody {state : ClassState} {ranges out : List (Char × Char)}
    {cs rest : List Char} (h : classBody state ranges cs = .ok (out, rest)) :
    rest.length < cs.length := by
  fun_induction classBody state ranges cs with
  | case1 => simp at h
  | case2 => simp_all; omega
  | case3 => simp_all
  | case4 => simp_all
  | case5 => simp at h
  | case6 => simp_all; omega
  | case7 => simp_all; omega
  | case8 => simp_all; omega
  | case9 => simp_all; omega

/-- Whether a class starts by saying what it excludes. -/
def negates : List Char → Bool
  | c :: _ => c == '!' || c == '^'
  | [] => false

/-- Reads a class after its opening bracket. -/
def classToken (cs : List Char) : Except GlobFault (Token × List Char) :=
  match classBody .start [] (cs.drop (if negates cs then 1 else 0)) with
  | .ok (ranges, rest) => .ok (.oneOf (negates cs) ranges, rest)
  | .error fault => .error fault

/-- Reading a class leaves less to read. -/
theorem length_of_classToken {cs rest : List Char} {token : Token}
    (h : classToken cs = .ok (token, rest)) : rest.length < cs.length := by
  unfold classToken at h
  split at h
  · next ranges rest' hb =>
    cases h
    have := length_of_classBody hb
    rw [List.length_drop] at this
    omega
  · simp at h

/-- The elements, last first, after two stars: `prev` is the character before them and `rest` what
follows. Also gives what is left to read. -/
def doubleStar (inGroup : Bool) (prev : Option Char) (tokens : List Token) (rest : List Char) :
    List Token × List Char :=
  let plain := (Token.star :: Token.star :: tokens, rest)
  match tokens with
  | [] =>
    match rest with
    | [] => ([.leading], [])
    | '/' :: after => ([.leading], after)
    | _ => plain
  | last :: before =>
    let afterSlash := prev == some '/'
    let atAlternative := inGroup && (prev == some ',' || prev == some '\x7b')
    if !afterSlash && !atAlternative then plain
    else
      let close (ending : Token) : List Token :=
        match last with
        | .leading => .leading :: before
        | .trailing => .trailing :: before
        | _ => ending :: before
      match rest with
      | [] => (close .trailing, [])
      | '/' :: after => (close .between, after)
      | c :: _ => if inGroup && (c == ',' || c == '\x7d') then (close .trailing, rest) else plain

/-- Two stars never leave more to read. -/
theorem length_doubleStar_le (inGroup : Bool) (prev : Option Char) (tokens : List Token)
    (rest : List Char) : (doubleStar inGroup prev tokens rest).2.length ≤ rest.length := by
  unfold doubleStar
  grind

/-- Reads a glob. `groups` are the open groups, innermost first, `tokens` the elements of the current
alternative, last first, and `prev` the character read last. -/
def read (prev : Option Char) (groups : List Open) (tokens : List Token) (cs : List Char) :
    Except GlobFault (List Token) :=
  match cs with
  | [] => if groups.isEmpty then .ok tokens.reverse else .error .unclosedAlternates
  | '?' :: cs => read (some '?') groups (.any :: tokens) cs
  | '*' :: '*' :: cs =>
    let read' := doubleStar (!groups.isEmpty) prev tokens cs
    let prev' := if read'.2.length < cs.length then '/' else '*'
    read (some prev') groups read'.1 read'.2
  | '*' :: cs => read (some '*') groups (.star :: tokens) cs
  | '[' :: cs =>
    match _h : classToken cs with
    | .ok (token, rest) => read (some ']') groups (token :: tokens) rest
    | .error fault => .error fault
  | '\x7b' :: cs => read (some '\x7b') (⟨tokens, []⟩ :: groups) [] cs
  | '\x7d' :: cs =>
    match groups with
    | [] => .error .unopenedAlternates
    | g :: gs =>
      read (some '\x7d') gs (groupOf (tokens.reverse :: g.done).reverse :: g.outer) cs
  | ',' :: cs =>
    match groups with
    | [] => read (some ',') groups (.literal ',' :: tokens) cs
    | g :: gs => read (some ',') (⟨g.outer, tokens.reverse :: g.done⟩ :: gs) [] cs
  | ['\\'] => .error .danglingEscape
  | '\\' :: c :: cs => read (some c) groups (.literal c :: tokens) cs
  | c :: cs => read (some c) groups (.literal c :: tokens) cs
termination_by cs.length
decreasing_by
  all_goals simp only [List.length_cons]
  all_goals first
    | omega
    | exact Nat.lt_succ_of_lt (length_of_classToken (by assumption))
    | exact Nat.lt_succ_of_le (Nat.le_succ_of_le (length_doubleStar_le _ _ _ _))

/-- The shape of a glob's elements. Two stars alone stand for everything. -/
def shapeOf : List Token → Shape
  | [.leading] => .run
  | tokens => (shapeOf? tokens).getD .nothing

/-- Whether elements are all characters as they are. -/
def areLiteral (tokens : List Token) : Bool := tokens.all fun
  | .literal _ => true
  | _ => false

/-- Whether elements are all characters as they are, and none of them one of those given. -/
def areLiteralBut (not : List Char) (tokens : List Token) : Bool := tokens.all fun
  | .literal c => !not.contains c
  | _ => false

/-- The elements without two stars that lead them. -/
def afterLeading : List Token → List Token
  | .leading :: tokens => tokens
  | tokens => tokens

/-- Whether a glob asks for a certain file name, in any directory. -/
def asksName : List Token → Bool
  | .leading :: tokens => !tokens.isEmpty && areLiteralBut ['/'] tokens
  | _ => false

/-- Whether a glob asks for a certain extension and nothing more. -/
def asksExtension (tokens : List Token) : Bool :=
  match afterLeading tokens with
  | .star :: .literal '.' :: more => areLiteralBut ['.', '/'] more
  | _ => false

/-- Whether a glob asks for a certain ending, on its own or of whole components. -/
def asksEnding (tokens : List Token) : Bool :=
  match afterLeading tokens with
  | [] => false
  | .star :: more => !more.isEmpty && areLiteral more
  | more => areLiteral more

/-- Whether a glob ends in an extension: in a dot and characters that are no slashes. -/
def endsInExtension (tokens : List Token) : Bool :=
  let isDot : Token → Bool
    | .literal '.' => true
    | _ => false
  let ending := tokens.reverse.takeWhile (!isDot ·)
  ending.length < tokens.length && areLiteralBut ['/'] ending

/-- Whether a glob is matched by the file name or its extension. A path that ends in two dots has
neither. -/
def needsFileName (tokens : List Token) : Bool :=
  asksName tokens ||
    (!areLiteral tokens &&
      (asksExtension tokens || (!asksEnding tokens && endsInExtension tokens)))

end Glob

/-- A glob that was read. -/
structure Glob where
  shape : Shape
  /-- Whether only paths with a file name can match. -/
  named : Bool

namespace Glob

/-- Reads a glob. -/
def parse (glob : String) : Except Fault Glob :=
  match read none [] [] glob.toList with
  | .ok tokens => .ok { shape := shapeOf tokens, named := needsFileName tokens }
  | .error cause => .error (.glob glob cause)

/-- Reads several globs; the first that cannot be read is reported. -/
def parseAll (globs : List String) : Except Fault (List Glob) := globs.mapM parse

/-- Whether a glob describes a path. -/
def describes (g : Glob) (path : Path) : Bool :=
  (!g.named || path.fileName.isSome) && g.shape.fits path.text.toUTF8.toList

end Glob

/-- Which paths a codemod may touch: those that some include glob describes (all, if there are no
include globs) and no exclude glob does. -/
structure TargetFilter where
  include? : Option (List Glob)
  exclude : List Glob

namespace TargetFilter

/-- The filter of the given globs. -/
def ofGlobs (included excluded : List String) : Except Fault TargetFilter := do
  let wanted ← Glob.parseAll included
  let unwanted ← Glob.parseAll excluded
  return { include? := if wanted.isEmpty then none else some wanted, exclude := unwanted }

/-- The path without its first component, which names the repository. -/
def inner (path : Path) : Path := Path.ofComponents (path.components.drop 1)

/-- Whether a path, whose first component names the repository, passes the filter. -/
def accepts (f : TargetFilter) (path : Path) : Bool :=
  (f.include?.all (·.any (·.describes (inner path)))) && !(f.exclude.any (·.describes (inner path)))

end TargetFilter

end CodeSweep
