import CodeSweep.Git.Branch
import CodeSweep.Proofs.Text.Ending
import CodeSweep.Proofs.Text.Search

/-! # Listings are read back

The printers beside the readers of branch listings. A local listing puts two characters before every
name, a star among them for the branch that is checked out; a remote listing puts a hash and
`refs/heads/` there.

Every entry has a line of its own. Beyond that a listing is free: a line ends in a line feed, with or
without a carriage return before it, the last one may have no ending, and anywhere there may be lines that
are no entries. `LaysOut` is the relation between entries and the texts that list them. What is laid out is
read back as it was (`readLocal_laysOut`, `readRemote_laysOut`), as long as the names can stand on a line of
their own; both readers go line by line, so this is shown of one line and lifted once
(`filterMap_laysOut`). -/

namespace CodeSweep

/-! ## Lines and trimming -/

namespace Text

/-- The first line ends at the first line feed. -/
theorem lineChars_append_break {l : List Char} (hl : '\n' ∉ l) (rest : List Char) :
    lineChars (l ++ '\n' :: rest) = dropReturn l :: lineChars rest := by
  unfold lineChars
  rw [pieces_append_sep hl]
  obtain ⟨p, ps, hp⟩ := List.exists_cons_of_ne_nil (pieces_ne_nil '\n' rest)
  rw [hp]
  simp only [List.dropLast_cons_cons, List.map_cons, List.getLast?_cons_cons]
  split <;> simp

theorem dropReturn_of_getLast? {l : List Char} (h : l.getLast? ≠ some '\r') : dropReturn l = l := by
  have hs : ['\r'].isSuffixOf l = false := by
    rw [Bool.eq_false_iff]
    intro hs
    obtain ⟨init, rfl⟩ := List.isSuffixOf_iff_suffix.mp hs
    exact h (by simp)
  simp [dropReturn, dropEnding?, hs]

/-- Characters that neither begin nor end with white space. -/
structure Trimmed (cs : List Char) : Prop where
  head : ∀ c ∈ cs.head?, isBlank c = false
  last : ∀ c ∈ cs.getLast?, isBlank c = false

theorem dropWhile_of_head? {p : Char → Bool} {cs : List Char} (h : ∀ c ∈ cs.head?, p c = false) :
    cs.dropWhile p = cs := by
  cases cs with
  | nil => rfl
  | cons c cs => rw [List.dropWhile_cons, h c rfl]; rfl

theorem Trimmed.trimChars_eq {cs : List Char} (h : Trimmed cs) : trimChars cs = cs := by
  have hrev : ∀ c ∈ cs.reverse.head?, isBlank c = false := by
    rw [List.head?_reverse]
    exact h.last
  simp only [trimChars, dropLeading, dropTrailing, dropWhile_of_head? h.head,
    dropWhile_of_head? hrev, List.reverse_reverse]

theorem trimChars_cons_of_blank {c : Char} (hc : isBlank c = true) (cs : List Char) :
    trimChars (c :: cs) = trimChars cs := by
  simp [trimChars, dropLeading, hc]

/-- The first occurrence is found where nothing before it begins like one. -/
theorem splitFirst?_append {n : Char} {needle before : List Char} (hn : n ∉ before)
    (after : List Char) :
    splitFirst? (n :: needle) (before ++ (n :: needle ++ after)) = some (before, after) := by
  induction before with
  | nil =>
      have hp : (n :: needle).isPrefixOf (n :: needle ++ after) = true :=
        List.isPrefixOf_iff_prefix.mpr (List.prefix_append _ _)
      rw [List.nil_append, List.cons_append, splitFirst?, ← List.cons_append, if_pos hp,
        List.drop_left]
  | cons c cs ih =>
      have hc : n ≠ c := fun h => hn (by simp [h])
      have hcs : n ∉ cs := fun h => hn (by simp [h])
      have hp : (n :: needle).isPrefixOf (c :: (cs ++ (n :: needle ++ after))) = false := by
        simp [List.isPrefixOf, hc]
      rw [List.cons_append, splitFirst?, hp, ih hcs]
      rfl

variable {l ending rest : List Char}

theorem lineChars_of_unbroken (hne : l ≠ []) (hl : '\n' ∉ l) : lineChars l = [l] := by
  obtain ⟨c, cs, rfl⟩ := List.exists_cons_of_ne_nil hne
  rw [lineChars, pieces_of_not_mem hl]
  rfl

theorem dropReturn_append (l : List Char) : dropReturn (l ++ ['\r']) = l := by
  rw [dropReturn, dropEnding?_eq_some_iff.mpr rfl]
  rfl

theorem dropReturn_isPrefix (l : List Char) : dropReturn l <+: l := by
  cases hdrop : dropEnding? ['\r'] l with
  | none => exact ⟨[], by simp [dropReturn, hdrop]⟩
  | some front =>
      refine ⟨['\r'], ?_⟩
      rw [dropReturn, hdrop]
      exact (dropEnding?_eq_some_iff.mp hdrop).symm

/-- What may end a line. -/
def IsEnding (ending : List Char) : Prop := ending = ['\n'] ∨ ending = ['\r', '\n']

/-- A line is read without its ending, and without a carriage return of its own where the ending has
none. -/
theorem lineChars_append_ending (hl : '\n' ∉ l) (hending : IsEnding ending) (rest : List Char) :
    lineChars (l ++ ending ++ rest) = l :: lineChars rest ∨
      lineChars (l ++ ending ++ rest) = dropReturn l :: lineChars rest := by
  rcases hending with rfl | rfl
  · right
    rw [List.append_assoc, List.singleton_append, lineChars_append_break hl]
  · left
    have hreturn : '\n' ∉ l ++ ['\r'] := by
      intro hmem
      rcases List.mem_append.mp hmem with hmem | hmem
      · exact hl hmem
      · exact absurd hmem (by decide)
    have htext : l ++ ['\r', '\n'] ++ rest = l ++ ['\r'] ++ '\n' :: rest := by simp
    rw [htext, lineChars_append_break hreturn, dropReturn_append]

end Text

open Text

/-! ## Layouts -/

section Layout

variable {α β : Type} {shows : α → List Char} {passes : List Char → Prop} {entries : List α}
  {text : List Char}

/-- A text lays out entries, each shown on a line of its own, among lines that are passed over. -/
inductive LaysOut (shows : α → List Char) (passes : List Char → Prop) : List α → List Char → Prop
  | nothing : LaysOut shows passes [] []
  | entry {a entries ending rest} (hending : IsEnding ending) (hrest : LaysOut shows passes entries rest) :
      LaysOut shows passes (a :: entries) (shows a ++ ending ++ rest)
  | other {line entries ending rest} (hpasses : passes line) (hunbroken : '\n' ∉ line)
      (hending : IsEnding ending) (hrest : LaysOut shows passes entries rest) :
      LaysOut shows passes entries (line ++ ending ++ rest)
  | lastEntry {a} : LaysOut shows passes [a] (shows a)
  | lastOther {line} (hpasses : passes line) (hunbroken : '\n' ∉ line) : LaysOut shows passes [] line

/-- One entry after the other, each ended by a line feed. -/
theorem laysOut_flatMap (shows : α → List Char) (passes : List Char → Prop) (entries : List α) :
    LaysOut shows passes entries (entries.flatMap fun a => shows a ++ ['\n']) := by
  induction entries with
  | nil => exact .nothing
  | cons a entries ih => exact .entry (.inl rfl) ih

/-- What is shown of an entry can be told from the lines around it. -/
structure StandsAlone (line : List Char) : Prop where
  ne_nil : line ≠ []
  unbroken : '\n' ∉ line
  last : line.getLast? ≠ some '\r'

/-- A reader that reads every entry off its line, and nothing off the lines that are passed over, gives
back what is laid out. -/
theorem filterMap_laysOut {read : List Char → Option β} {f : α → β}
    (hshows : ∀ a ∈ entries, StandsAlone (shows a) ∧ read (shows a) = some (f a))
    (hpasses : ∀ line, passes line → read line = none ∧ read (dropReturn line) = none)
    (h : LaysOut shows passes entries text) : (lineChars text).filterMap read = entries.map f := by
  induction h with
  | nothing => rfl
  | @entry a entries ending rest hending hrest ih =>
      obtain ⟨halone, hread⟩ := hshows a List.mem_cons_self
      have hline : lineChars (shows a ++ ending ++ rest) = shows a :: lineChars rest := by
        rcases lineChars_append_ending halone.unbroken hending rest with hline | hline
        · exact hline
        · rw [hline, dropReturn_of_getLast? halone.last]
      rw [hline, List.filterMap_cons_some hread, ih fun a ha => hshows a (List.mem_cons_of_mem _ ha),
        List.map_cons]
  | @other line entries ending rest hline hunbroken hending hrest ih =>
      obtain ⟨hnone, hnone'⟩ := hpasses line hline
      rcases lineChars_append_ending hunbroken hending rest with hlines | hlines
      · rw [hlines, List.filterMap_cons_none hnone, ih hshows]
      · rw [hlines, List.filterMap_cons_none hnone', ih hshows]
  | @lastEntry a =>
      obtain ⟨halone, hread⟩ := hshows a List.mem_cons_self
      rw [lineChars_of_unbroken halone.ne_nil halone.unbroken, List.filterMap_cons_some hread]
      rfl
  | @lastOther line hline hunbroken =>
      by_cases hne : line = []
      · rw [hne]
        rfl
      · rw [lineChars_of_unbroken hne hunbroken, List.filterMap_cons_none (hpasses line hline).1]
        rfl

end Layout

namespace Branch

/-! ## Local listings -/

/-- A text that a listing can show on one line so that it is read back: it is not empty, not broken,
not starred, and not surrounded by white space. -/
structure Printable (name : String) : Prop where
  ne_nil : name.toList ≠ []
  unbroken : '\n' ∉ name.toList
  unstarred : '*' ∉ name.toList
  trimmed : Trimmed name.toList

/-- A line of a local listing, without its ending. -/
def line (b : Branch) : List Char := (if b.selected then '*' else ' ') :: ' ' :: b.name.toList

theorem line_unbroken {b : Branch} (h : Printable b.name) : '\n' ∉ b.line := by
  have := h.unbroken
  cases hs : b.selected <;> simp [line, hs, this]

theorem line_getLast? {b : Branch} (h : Printable b.name) :
    ∀ c ∈ b.line.getLast?, isBlank c = false := by
  obtain ⟨c, cs, hcs⟩ := List.exists_cons_of_ne_nil h.ne_nil
  have hlast := h.trimmed.last
  rw [hcs] at hlast
  rw [line, hcs, List.getLast?_cons_cons, List.getLast?_cons_cons]
  exact hlast

theorem ofLine_line {b : Branch} (h : Printable b.name) : ofLine b.line = b := by
  have hname : b.name.toList.filter (· != '*') = b.name.toList := by
    rw [List.filter_eq_self]
    intro c hc
    have : c ≠ '*' := fun hstar => h.unstarred (hstar ▸ hc)
    simpa using this
  have hblank : isBlank ' ' = true := by decide
  obtain ⟨name, selected⟩ := b
  cases selected <;>
    simp [ofLine, line, hname, trimChars_cons_of_blank hblank, h.trimmed.trimChars_eq]

theorem trimChars_line_ne_nil {b : Branch} (h : Printable b.name) : trimChars b.line ≠ [] := by
  have hblank : isBlank ' ' = true := by decide
  cases hs : b.selected with
  | false =>
      simp only [line, hs, Bool.false_eq_true, if_false, trimChars_cons_of_blank hblank,
        h.trimmed.trimChars_eq]
      exact h.ne_nil
  | true =>
      have htrim : Trimmed b.line := ⟨by simp [line, hs]; decide, line_getLast? h⟩
      rw [htrim.trimChars_eq]
      simp [line]

theorem line_standsAlone {b : Branch} (h : Printable b.name) : StandsAlone b.line := by
  refine ⟨by simp [line], line_unbroken h, fun hreturn => ?_⟩
  exact absurd (line_getLast? h '\r' hreturn) (by decide)

/-- A line with nothing but white space on it. -/
def IsBlankLine (line : List Char) : Prop := ∀ c ∈ line, isBlank c = true

/-- The branch on a line of a local listing, if it is not blank. -/
def ofLine? (line : List Char) : Option Branch :=
  if (trimChars line).isEmpty then none else some (ofLine line)

theorem readLocal_eq_filterMap (text : String) :
    readLocal text = (lineChars text.toList).filterMap ofLine? := by
  unfold readLocal
  induction lineChars text.toList with
  | nil => rfl
  | cons l ls ih =>
      rw [List.filter_cons, List.filterMap_cons, ofLine?]
      cases (trimChars l).isEmpty with
      | true => exact ih
      | false => exact congrArg (ofLine l :: ·) ih

theorem ofLine?_line {b : Branch} (h : Printable b.name) : ofLine? b.line = some b := by
  rw [ofLine?, if_neg (by simpa using trimChars_line_ne_nil h), ofLine_line h]

theorem ofLine?_of_isBlankLine {line : List Char} (h : IsBlankLine line) : ofLine? line = none := by
  have hleading : dropLeading isBlank line = [] := List.dropWhile_eq_nil_iff.mpr h
  rw [ofLine?, trimChars, hleading]
  rfl

/-- **What a local listing lays out is read back.** -/
theorem readLocal_laysOut {bs : List Branch} {text : String} (hnames : ∀ b ∈ bs, Printable b.name)
    (h : LaysOut line IsBlankLine bs text.toList) : readLocal text = bs := by
  rw [readLocal_eq_filterMap, filterMap_laysOut (f := id) _ _ h, List.map_id]
  · intro b hb
    exact ⟨line_standsAlone (hnames b hb), ofLine?_line (hnames b hb)⟩
  · intro l hl
    have hshort : IsBlankLine (dropReturn l) := fun c hc => hl c ((dropReturn_isPrefix l).subset hc)
    exact ⟨ofLine?_of_isBlankLine hl, ofLine?_of_isBlankLine hshort⟩

/-- A local listing. -/
def printLocal (bs : List Branch) : String := String.ofList (bs.flatMap fun b => b.line ++ ['\n'])

theorem readLocal_printLocal {bs : List Branch} (h : ∀ b ∈ bs, Printable b.name) :
    readLocal (printLocal bs) = bs := by
  apply readLocal_laysOut h
  rw [printLocal, String.toList_ofList]
  exact laysOut_flatMap line IsBlankLine bs

/-! ## Names and remote listings -/

/-- A name that a branch may have: not empty, no white space and no star. -/
def isName (name : String) : Bool :=
  !name.toList.isEmpty && name.toList.all fun c => !isBlank c && c != '*'

theorem isName_iff {name : String} :
    isName name = true ↔ name.toList ≠ [] ∧ ∀ c ∈ name.toList, isBlank c = false ∧ c ≠ '*' := by
  simp [isName]

theorem isName.printable {name : String} (h : isName name = true) : Printable name := by
  obtain ⟨hne, hall⟩ := isName_iff.mp h
  have hbreak : isBlank '\n' = true := by decide
  refine ⟨hne, fun hc => ?_, fun hc => ?_, ⟨fun c hc => ?_, fun c hc => ?_⟩⟩
  · rw [(hall _ hc).1] at hbreak
    cases hbreak
  · exact (hall _ hc).2 rfl
  · exact (hall c (List.mem_of_mem_head? hc)).1
  · exact (hall c (List.mem_of_mem_getLast? hc)).1

/-- The digits that a hash is made of. -/
def hexDigits : List Char := "0123456789abcdef".toList

/-- The hash of a commit. -/
def isHash (hash : String) : Bool :=
  !hash.toList.isEmpty && hash.toList.all hexDigits.contains

theorem isHash_iff {hash : String} :
    isHash hash = true ↔ hash.toList ≠ [] ∧ ∀ c ∈ hash.toList, c ∈ hexDigits := by
  simp [isHash]

/-- The digits that a hash may be written with. -/
def anyHexDigits : List Char := hexDigits ++ "ABCDEF".toList

/-- Digits neither end a line nor look like the beginning of a reference. -/
theorem anyHexDigits_plain : ∀ c ∈ anyHexDigits, c ≠ 'r' ∧ c ≠ '\n' := by
  have hall : (anyHexDigits.all fun c => c != 'r' && c != '\n') = true := by decide
  intro c hc
  simpa using List.all_eq_true.mp hall c hc

/-- A line of a remote listing, without its ending. -/
def remoteLine (head : String × String) : List Char :=
  (head.1.toList ++ ['\t']) ++ (headsMark ++ head.2.toList)

/-- A name is read behind the mark, whatever is before it that does not begin like the mark. -/
theorem ofRemoteLine?_append {before : List Char} {name : String} (hbefore : 'r' ∉ before)
    (hname : isName name = true) :
    ofRemoteLine? (before ++ (headsMark ++ name.toList)) = some { name, selected := false } := by
  have hprint := isName.printable hname
  obtain ⟨c, cs, hcs⟩ := List.exists_cons_of_ne_nil hprint.ne_nil
  have hmark : headsMark = 'r' :: headsMark.tail := rfl
  have hr : isBlank 'r' = false := by decide
  have hlast : ∀ c ∈ (dropLeading isBlank before ++ (headsMark ++ name.toList)).getLast?,
      isBlank c = false := by
    intro d hd
    rw [← List.append_assoc, List.getLast?_append, Option.mem_def, hcs, List.getLast?_cons,
      Option.some_or, ← List.getLast?_cons, ← hcs] at hd
    exact hprint.trimmed.last d hd
  have htrim : trimChars (before ++ (headsMark ++ name.toList)) =
      dropLeading isBlank before ++ (headsMark ++ name.toList) := by
    rw [trimChars, hmark, List.cons_append, dropLeading_append_cons hr, ← List.cons_append, ← hmark]
    have hdrop := dropTrailing_append hlast (List.forall_mem_nil _)
    rwa [List.append_nil] at hdrop
  have hsplit : splitFirst? headsMark (dropLeading isBlank before ++ (headsMark ++ name.toList)) =
      some (dropLeading isBlank before, name.toList) :=
    splitFirst?_append (fun hmem => hbefore (dropLeading_subset hmem)) name.toList
  rw [ofRemoteLine?, htrim, hsplit, hcs]
  simp [← hcs]

theorem ofRemoteLine?_of_not_mark {line : List Char} (h : ¬ headsMark <:+: line) :
    ofRemoteLine? line = none := by
  have hsplit : splitFirst? headsMark (trimChars line) = none := by
    by_contra hsome
    obtain ⟨⟨before, after⟩, hfound⟩ := Option.ne_none_iff_exists'.mp hsome
    apply h
    have hinfix : headsMark <:+: trimChars line :=
      ⟨before, after, by rw [splitFirst?_eq_some hfound, List.append_assoc]⟩
    -- trimming takes off the ends and nothing else
    have htrailing : trimChars line <+: dropLeading isBlank line := by
      obtain ⟨-, back, hback, -⟩ := dropTrailing_eq_iff.mp (rfl : trimChars line = trimChars line)
      exact ⟨back, hback.symm⟩
    have hleading : dropLeading isBlank line <:+ line := List.dropWhile_suffix isBlank
    exact hinfix.trans (htrailing.isInfix.trans hleading.isInfix)
  rw [ofRemoteLine?, hsplit]

section Heads

variable {heads : List (String × String)} {head : String × String}

theorem ofRemoteLine?_remoteLine (hhash : ∀ c ∈ head.1.toList, c ∈ anyHexDigits)
    (hname : isName head.2 = true) :
    ofRemoteLine? (remoteLine head) = some { name := head.2, selected := false } := by
  apply ofRemoteLine?_append _ hname
  intro hmem
  rcases List.mem_append.mp hmem with hmem | hmem
  · exact (anyHexDigits_plain _ (hhash _ hmem)).1 rfl
  · exact absurd hmem (by decide)

theorem remoteLine_standsAlone (hhash : ∀ c ∈ head.1.toList, c ∈ anyHexDigits)
    (hname : isName head.2 = true) : StandsAlone (remoteLine head) := by
  have hprint := isName.printable hname
  refine ⟨by simp [remoteLine], ?_, ?_⟩
  · intro hmem
    rcases List.mem_append.mp hmem with hmem | hmem
    · rcases List.mem_append.mp hmem with hmem | hmem
      · exact (anyHexDigits_plain _ (hhash _ hmem)).2 rfl
      · exact absurd hmem (by decide)
    · rcases List.mem_append.mp hmem with hmem | hmem
      · exact absurd hmem (by decide)
      · exact hprint.unbroken hmem
  · intro hreturn
    obtain ⟨c, hc⟩ := Option.ne_none_iff_exists'.mp (mt List.getLast?_eq_none_iff.mp hprint.ne_nil)
    rw [remoteLine, ← List.append_assoc, List.getLast?_append, hc, Option.some_or] at hreturn
    cases hreturn
    exact absurd (hprint.trimmed.last '\r' hc) (by decide)

/-- **What a remote listing lays out is read back**, in order and with no branch selected. -/
theorem readRemote_laysOut {text : String}
    (hheads : ∀ head ∈ heads, (∀ c ∈ head.1.toList, c ∈ anyHexDigits) ∧ isName head.2 = true)
    (h : LaysOut remoteLine (fun line => ¬ headsMark <:+: line) heads text.toList) :
    readRemote text = heads.map fun head => { name := head.2, selected := false } := by
  apply filterMap_laysOut _ _ h
  · intro head hhead
    obtain ⟨hhash, hname⟩ := hheads head hhead
    exact ⟨remoteLine_standsAlone hhash hname, ofRemoteLine?_remoteLine hhash hname⟩
  · intro l hl
    refine ⟨ofRemoteLine?_of_not_mark hl, ofRemoteLine?_of_not_mark fun hmark => ?_⟩
    exact hl (hmark.trans (dropReturn_isPrefix l).isInfix)

/-- A remote listing of branches with their hashes. -/
def printRemote (heads : List (String × String)) : String :=
  String.ofList (heads.flatMap fun head => remoteLine head ++ ['\n'])

theorem readRemote_printRemote
    (h : ∀ head ∈ heads, isHash head.1 = true ∧ isName head.2 = true) :
    readRemote (printRemote heads) = heads.map fun head => { name := head.2, selected := false } := by
  apply readRemote_laysOut
  · intro head hhead
    obtain ⟨hhash, hname⟩ := h head hhead
    exact ⟨fun c hc => List.mem_append_left _ ((isHash_iff.mp hhash).2 c hc), hname⟩
  · rw [printRemote, String.toList_ofList]
    exact laysOut_flatMap remoteLine _ heads

end Heads

/-! ## Both listings -/

/-- **Branch listings are read back exactly**, however they are laid out. -/
theorem listings_readBack :
    (∀ (bs : List Branch) (text : String), (∀ b ∈ bs, isName b.name = true) →
      LaysOut line IsBlankLine bs text.toList → readLocal text = bs) ∧
    ∀ (heads : List (String × String)) (text : String),
      (∀ head ∈ heads, (∀ c ∈ head.1.toList, c ∈ anyHexDigits) ∧ isName head.2 = true) →
      LaysOut remoteLine (fun line => ¬ headsMark <:+: line) heads text.toList →
        readRemote text = heads.map fun head => { name := head.2, selected := false } :=
  ⟨fun _ _ hnames h => readLocal_laysOut (fun b hb => isName.printable (hnames b hb)) h,
    fun _ _ hheads h => readRemote_laysOut hheads h⟩

/-- A local listing with both kinds of endings, blank lines, and no ending of its last line; and a remote
one with a notice and a name that reads like a reference. -/
theorem listings_readBack_mixed :
    readLocal "\n  main\r\n \t\r\n* feature/x\n  wip" =
        [⟨"main", false⟩, ⟨"feature/x", true⟩, ⟨"wip", false⟩] ∧
      readRemote "From web\n0aF\trefs/heads/refs/heads/x\r\n9\trefs/heads/y" =
        [⟨"refs/heads/x", false⟩, ⟨"y", false⟩] := by
  constructor
  · apply listings_readBack.1 _ _ (by decide)
    have htext : "\n  main\r\n \t\r\n* feature/x\n  wip".toList = [] ++ ['\n'] ++
        (line ⟨"main", false⟩ ++ ['\r', '\n'] ++ ([' ', '\t'] ++ ['\r', '\n'] ++
          (line ⟨"feature/x", true⟩ ++ ['\n'] ++ line ⟨"wip", false⟩))) := by decide
    rw [htext]
    have hblank : IsBlankLine [' ', '\t'] := List.all_eq_true.mp rfl
    apply LaysOut.other (by simp [IsBlankLine]) List.not_mem_nil (.inl rfl)
    apply LaysOut.entry (.inr rfl)
    apply LaysOut.other hblank (by decide) (.inr rfl)
    exact .entry (.inl rfl) .lastEntry
  · have hheads : ∀ head ∈ [("0aF", "refs/heads/x"), ("9", "y")],
        head.1.toList.all anyHexDigits.contains = true ∧ isName head.2 = true := by decide
    apply listings_readBack.2 [("0aF", "refs/heads/x"), ("9", "y")] _ (by simpa using hheads)
    have htext : "From web\n0aF\trefs/heads/refs/heads/x\r\n9\trefs/heads/y".toList =
        "From web".toList ++ ['\n'] ++ (remoteLine ("0aF", "refs/heads/x") ++
          ['\r', '\n'] ++ remoteLine ("9", "y")) := by decide
    rw [htext]
    apply LaysOut.other _ (by decide) (.inl rfl)
    · exact .entry (.inr rfl) .lastEntry
    -- a letter of the mark is missing
    · intro hmark
      have hd : 'd' ∈ headsMark := by decide
      exact absurd (hmark.subset hd) (by decide)

end Branch

end CodeSweep
