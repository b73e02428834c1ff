import CodeSweep.Proofs.Workspace.Reach

/-! # Walks are exact

A walk fails exactly where the path of its root leads nowhere, or to a directory that cannot be listed
(`walk_eq_error_iff`). Otherwise the tree alone decides what it finds (`walk_exact`): the files in plain
sight, and the directories in plain sight that cannot be listed. In plain sight is what names lead to by way
of directories that can be listed, if none of the names is a text that begins with a dot; a link is neither
such a directory nor a file.

A name of bytes that are no text is in plain sight, also if its first byte is that of a dot, and a walk from
a file finds nothing, also if the file may not be read (`walk_passes_dotted_and_locked`).

What is found is in the order of the names on the way and not of the paths as they are written: `a/x`
comes before `a-b`, and `a-b` before `a.ts`. -/

namespace CodeSweep

variable {ν : Type} [LT ν] [EntryName ν]

/-- A walk can start from a path at a location: the path leads there, and not to a directory that cannot be
listed. -/
structure Disk.StartsAt [DecidableEq ν] (d : Disk ν) (root : Path) (base : Location ν) : Prop where
  leads : d.locate root = .ok base
  listable : d.kind? base ≠ some (.dir false)

/-- Below a location names lead to an entry of a kind, by way of directories that can be listed, and none of
them is a text that begins with a dot. -/
structure Disk.Shows [DecidableEq ν] (d : Disk ν) (base : Location ν) (kind : Entry.Kind)
    (names : List ν) : Prop where
  reached : ∃ inside e, d.lookup? base = some (.dir true inside) ∧ e.kind = kind ∧ inside.Reaches names e
  plain : ∀ name ∈ names, ∀ s, EntryName.text? name = some s → s.toList.head? ≠ some '.'

/-- Paths increase strictly, where their names are compared one by one and names by their bytes. -/
def InByteOrder (paths : List (List ν)) : Prop :=
  paths.Pairwise fun a b => a.map EntryName.bytes < b.map EntryName.bytes

/-- A walk found what there is to find below a location, each thing once. -/
structure Walked.Exact [DecidableEq ν] (walked : Walked ν) (d : Disk ν) (base : Location ν) : Prop where
  files : ∀ names, names ∈ walked.files ↔ d.Shows base .file names
  filesOrdered : InByteOrder walked.files
  failed : ∀ names, names ∈ walked.failed ↔ d.Shows base (.dir false) names
  failedOnce : walked.failed.Nodup

theorem isHidden_eq_false_iff {name : ν} : isHidden name = false ↔
    ∀ s, EntryName.text? name = some s → s.toList.head? ≠ some '.' := by
  rw [isHidden]
  cases EntryName.text? name <;> simp

/-- Lists of names are ordered as the lists of their bytes are. -/
theorem EntryName.map_bytes_lt {as bs : List ν} (h : as < bs) : as.map bytes < bs.map bytes := by
  induction h with
  | nil => exact .nil
  | rel hlt => exact .rel (lt_iff_bytes_lt.mp hlt)
  | cons _ ih => exact .cons ih

namespace Disk

variable [DecidableEq ν] {d : Disk ν} {root : Path} {base : Location ν} {walked : Walked ν}

/-- A walk fails exactly where the path leads nowhere, or to a directory that cannot be listed. -/
theorem walk_eq_error_iff {fault : Fault} : d.walk root = .error fault ↔
    ∃ cause, fault = .walk root cause ∧ (d.locate root = .error cause ∨
      cause = .permissionDenied ∧ ∃ base, d.locate root = .ok base ∧ d.kind? base = some (.dir false)) := by
  rw [walk]
  cases d.locate root with
  | error cause => simp [eq_comm]
  | ok base =>
      simp only [kind?_eq_dir, Except.ok.injEq, exists_eq_left', reduceCtorEq, false_or]
      split
      next inside hdir => simp [hdir]
      next inside hdir => simp [hdir, eq_comm]
      next hlistable hlocked => simpa using fun _ => hlocked

theorem exists_walk_of_startsAt (h : d.StartsAt root base) :
    ∃ walked, d.walk root = .ok (base, walked) := by
  cases hwalk : d.walk root with
  | error fault =>
      obtain ⟨cause, -, hnowhere | ⟨-, base', hleads, hlocked⟩⟩ := walk_eq_error_iff.mp hwalk
      · cases h.leads.symm.trans hnowhere
      · cases h.leads.symm.trans hleads
        exact absurd hlocked h.listable
  | ok found =>
      obtain ⟨base', walked⟩ := found
      cases h.leads.symm.trans (walk_eq_ok.mp hwalk).1
      exact ⟨walked, rfl⟩

theorem mem_noted_iff (h : d.walk root = .ok (base, walked)) (kind : Entry.Kind)
    (hkind : kind.isNoted = true) {names : List ν} :
    names ∈ walked.noted kind ↔ d.Shows base kind names := by
  rw [mem_walk_iff h kind hkind]
  constructor
  · rintro ⟨inside, e, hdir, he, hreach, hsight⟩
    exact ⟨⟨inside, e, hdir, he, hreach⟩, fun name hname => isHidden_eq_false_iff.mp (hsight name hname)⟩
  · rintro ⟨⟨inside, e, hdir, he, hreach⟩, hplain⟩
    exact ⟨inside, e, hdir, he, hreach, fun name hname => isHidden_eq_false_iff.mpr (hplain name hname)⟩

theorem exact_of_walk (h : d.walk root = .ok (base, walked)) : walked.Exact d base where
  files _ := mem_noted_iff h .file rfl
  filesOrdered := (pairwise_walk h).1.imp EntryName.map_bytes_lt
  failed _ := mem_noted_iff h (.dir false) rfl
  failedOnce := Listing.nodup_of_increasing (pairwise_walk h).2

/-- **A walk is exact.** Whatever entries are called, it goes through from every path that it can start
from, and finds the files in plain sight, in order, and once each the directories in plain sight that cannot
be listed. It fails exactly where the path leads nowhere, or to a directory that cannot be listed. -/
theorem walk_exact (d : Disk ν) (root : Path) :
    (∀ base, d.StartsAt root base → ∃ walked, d.walk root = .ok (base, walked) ∧ walked.Exact d base) ∧
    ∀ fault, d.walk root = .error fault ↔ ∃ cause, fault = .walk root cause ∧
      (d.locate root = .error cause ∨
        cause = .permissionDenied ∧ ∃ base, d.locate root = .ok base ∧ d.kind? base = some (.dir false)) := by
  refine ⟨fun base hstart => ?_, fun fault => walk_eq_error_iff⟩
  obtain ⟨walked, hwalk⟩ := exists_walk_of_startsAt hstart
  exact ⟨walked, hwalk, exact_of_walk hwalk⟩

/-- The name that is a text. -/
def named (s : String) : RawName := EntryName.ofText s

/-- A name that begins with the byte of a dot and is no text. -/
def dotted : RawName := ⟨[0x2e, 0xff]⟩

/-- A directory between neighbours with longer names, entries that are hidden and one that only looks so, a
link, a file that may not be read, and directories that cannot be listed, one of them hidden. -/
def cluttered : Disk RawName where
  root :=
    .dir (named "w") true
      (.file (named ".env") { content := .text "" }
        (.dir (named ".git") false .empty
          (.file dotted { content := .text "" }
            (.dir (named "a") true
              (.dir (named "locked") false (.file (named "y") { content := .text "" } .empty)
                (.file (named "x") { content := .text "" } .empty))
              (.file (named "a-b") { content := .text "" }
                (.file (named "a.ts") { content := .text "", access := .denied }
                  (.link (named "l") "a" .empty)))))))
      .empty
  proper := by decide

/-- What a walk of the cluttered directory finds. -/
def foundInClutter : Walked RawName where
  files := [[dotted], [named "a", named "x"], [named "a-b"], [named "a.ts"]]
  failed := [[named "a", named "locked"]]

theorem walk_exact_cluttered :
    cluttered.StartsAt ⟨"/w/l/.."⟩ [named "w"] ∧
    cluttered.walk ⟨"/w/l/.."⟩ = .ok ([named "w"], foundInClutter) ∧
    foundInClutter.Exact cluttered [named "w"] ∧
    ∃ fault, cluttered.walk ⟨"/w/a/locked"⟩ = .error fault := by
  have hstart : cluttered.StartsAt ⟨"/w/l/.."⟩ [named "w"] := ⟨by decide +kernel, by decide +kernel⟩
  have hwalk : cluttered.walk ⟨"/w/l/.."⟩ = .ok ([named "w"], foundInClutter) :=
    walk_eq_ok.mpr ⟨hstart.leads, .inl ⟨_, rfl, by decide +kernel⟩⟩
  refine ⟨hstart, hwalk, ?_, ?_⟩
  · obtain ⟨walked, hwalked, hexact⟩ := (walk_exact cluttered ⟨"/w/l/.."⟩).1 _ hstart
    cases hwalk.symm.trans hwalked
    exact hexact
  · refine ⟨_, ((walk_exact cluttered ⟨"/w/a/locked"⟩).2 _).mpr ⟨.permissionDenied, rfl, .inr ⟨rfl, ?_⟩⟩⟩
    exact ⟨[named "w", named "a", named "locked"], by decide +kernel, by decide +kernel⟩

/-- A walk lists a file whose name begins with the byte of a dot, and it goes through from a file that
cannot be read. -/
theorem walk_passes_dotted_and_locked :
    ((EntryName.bytes dotted).head? = some 0x2e ∧
      ∃ walked, cluttered.walk ⟨"/w"⟩ = .ok ([named "w"], walked) ∧ [dotted] ∈ walked.files) ∧
    (cluttered.read ⟨"/w/a.ts"⟩ = .error .permissionDenied ∧
      cluttered.walk ⟨"/w/a.ts"⟩ = .ok ([named "w", named "a.ts"], {})) := by
  have hroot : cluttered.locate ⟨"/w"⟩ = .ok [named "w"] := by decide +kernel
  have hfile : cluttered.locate ⟨"/w/a.ts"⟩ = .ok [named "w", named "a.ts"] := by decide +kernel
  refine ⟨⟨rfl, foundInClutter, ?_, List.mem_cons_self⟩, ?_, ?_⟩
  · exact walk_eq_ok.mpr ⟨hroot, .inl ⟨_, rfl, by decide +kernel⟩⟩
  · rw [read, hfile]
    rfl
  · exact walk_eq_ok.mpr ⟨hfile, .inr ⟨nofun, rfl⟩⟩

end Disk

end CodeSweep
