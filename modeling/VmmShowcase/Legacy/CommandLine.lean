import VmmShowcase.Foundations.Delimited

/-! # The legacy command lines

`src/homework1.cc` and the client take pairs of options with `getopt`: `-v` names a configuration file,
`-s` a snapshot for a machine. A snapshot is pushed only when the next `-v` comes, so that a name given
before the first `-v` is the first machine's as well. `getopt` permutes its arguments, as it does unless
`POSIXLY_CORRECT` is set. -/

namespace VmmShowcase

open Text

namespace CommandLine

/-- An option character with its argument, or one that `getopt` reports with a question mark. -/
abbrev Parsed := Byte × Option (List Byte)

/-- The hyphen. -/
def hyphen : Byte := ascii '-'

/-- `v`. -/
def letterV : Byte := ascii 'v'

/-- `s`. -/
def letterS : Byte := ascii 's'

/-- The options in one argument, behind its hyphen, and the one that takes the next argument. Both options
take an argument: the rest of theirs, if there is one. -/
def letters : (text : List Byte) → List Parsed × Option Byte
  | [] => ([], none)
  | c :: text =>
      if c = letterV ∨ c = letterS then
        if text = [] then ([], some c) else ([(c, some text)], none)
      else ((c, none) :: (letters text).1, (letters text).2)

/-- What `getopt` with `"v:s:"` returns, call by call, where `pending` is the option whose argument comes
next. Arguments that are no options are skipped, and an argument of two hyphens ends the options. -/
def getopt : (pending : Option Byte) → (args : List (List Byte)) → List Parsed
  | none, [] => []
  | some c, [] => [(c, none)]
  | some c, arg :: args => (c, some arg) :: getopt none args
  | none, arg :: args =>
      if arg = [hyphen, hyphen] then []
      else if arg.head? = some hyphen ∧ arg ≠ [hyphen] then
        (letters arg.tail).1 ++ getopt (letters arg.tail).2 args
      else getopt none args

/-- `Nosnapshot`. -/
def noSnapshot : List Byte := bytes ['N', 'o', 's', 'n', 'a', 'p', 's', 'h', 'o', 't']

/-- The variables of `main` that the options set. -/
structure Options where
  assembly_Files : List (List Byte) := []
  snapshot_Files : List (List Byte) := []
  vm_num : Nat := 0
  snapshot_name : List Byte := noSnapshot
  deriving DecidableEq

/-- The `switch` of `main`. -/
def Options.set (o : Options) (parsed : Parsed) : Options :=
  match parsed.2 with
  | none => o
  | some optarg =>
      if parsed.1 = letterV then
        let o := { o with vm_num := o.vm_num + 1, assembly_Files := o.assembly_Files ++ [optarg] }
        if 1 < o.vm_num then
          { o with
            snapshot_Files := o.snapshot_Files ++ [o.snapshot_name]
            snapshot_name := noSnapshot }
        else o
      else if parsed.1 = letterS then { o with snapshot_name := optarg }
      else o

/-- The options of `main`. -/
def options (args : List (List Byte)) : Options :=
  let o := (getopt none args).foldl Options.set {}
  { o with snapshot_Files := o.snapshot_Files ++ [o.snapshot_name] }

/-! ## Which snapshot belongs to which machine -/

/-- The configuration file that an option names. -/
def fileOf (parsed : Parsed) : Option (List Byte) := if parsed.1 = letterV then parsed.2 else none

/-- The snapshot that an option names. -/
def snapshotOf (parsed : Parsed) : Option (List Byte) := if parsed.1 = letterS then parsed.2 else none

/-- The last snapshot that options name, and `old` if they name none. -/
def lastSnapshot (old : List Byte) (parsed : List Parsed) : List Byte :=
  (parsed.filterMap snapshotOf).getLast?.getD old

/-- The options of each machine: those behind its `-v` and before the next one, and for the first machine
also those before its own. -/
def sections (parsed : List Parsed) : List (List Parsed) :=
  match parsed.splitOnP fun p => (fileOf p).isSome with
  | lead :: first :: others => (lead ++ first) :: others
  | whole => whole

/-- An option that names no file only sets the name of a snapshot. -/
theorem set_of_fileOf_none {p : Parsed} (h : fileOf p = none) (o : Options) :
    o.set p = { o with snapshot_name := (snapshotOf p).getD o.snapshot_name } := by
  obtain ⟨c, optarg⟩ := p
  rw [fileOf] at h
  rw [Options.set, snapshotOf]
  cases optarg with
  | none => simp
  | some optarg =>
      have hc : c ≠ letterV := by
        rintro rfl
        cases h
      simp only [if_neg hc]
      split <;> rfl

/-- The options that name files name them in their order. -/
theorem set_of_fileOf_some {p : Parsed} {file : List Byte} (h : fileOf p = some file) (o : Options) :
    o.set p = if o.vm_num = 0 then
        { o with assembly_Files := o.assembly_Files ++ [file], vm_num := 1 }
      else {
        assembly_Files := o.assembly_Files ++ [file]
        snapshot_Files := o.snapshot_Files ++ [o.snapshot_name]
        vm_num := o.vm_num + 1
        snapshot_name := noSnapshot } := by
  obtain ⟨c, optarg⟩ := p
  rw [fileOf, Option.ite_none_right_eq_some] at h
  obtain ⟨rfl, rfl⟩ := h
  rw [Options.set]
  rcases Nat.eq_zero_or_pos o.vm_num with hnum | hnum
  · simp [hnum]
  · simp [hnum, Nat.ne_of_gt hnum]

/-- A further snapshot counts instead of the ones before it. -/
theorem lastSnapshot_cons (old : List Byte) (p : Parsed) (parsed : List Parsed) :
    lastSnapshot old (p :: parsed) = lastSnapshot ((snapshotOf p).getD old) parsed := by
  rw [lastSnapshot, lastSnapshot, List.filterMap_cons]
  cases snapshotOf p with
  | none => rfl
  | some snapshot => rw [List.getLast?_cons]; cases (parsed.filterMap snapshotOf).getLast? <;> rfl

/-- The snapshots that are pushed, the last one by `main` itself. -/
def snapshots (o : Options) (parsed : List Parsed) : List (List Byte) :=
  (parsed.foldl Options.set o).snapshot_Files ++ [(parsed.foldl Options.set o).snapshot_name]

/-- **Behind a first machine** each further one ends the options of the one before. -/
theorem snapshots_of_pos {o : Options} (h : 0 < o.vm_num) (parsed : List Parsed) :
    ∃ lead others, parsed.splitOnP (fun p => (fileOf p).isSome) = lead :: others
      ∧ snapshots o parsed = o.snapshot_Files ++ lastSnapshot o.snapshot_name lead
        :: others.map (lastSnapshot noSnapshot) := by
  induction parsed generalizing o with
  | nil => exact ⟨[], [], List.splitOnP_nil, rfl⟩
  | cons p parsed ih =>
      have hset : 0 < (o.set p).vm_num := by
        cases hfile : fileOf p with
        | none => rwa [set_of_fileOf_none hfile]
        | some file =>
            rw [set_of_fileOf_some hfile, if_neg (Nat.ne_of_gt h)]
            exact Nat.succ_pos _
      obtain ⟨lead, others, hsplit, hpushed⟩ := ih hset
      rw [snapshots, List.foldl_cons, ← snapshots, hpushed, List.splitOnP_cons_eq_if_modifyHead,
        hsplit]
      cases hfile : fileOf p with
      | none =>
          refine ⟨p :: lead, others, rfl, ?_⟩
          rw [set_of_fileOf_none hfile, lastSnapshot_cons]
      | some file =>
          -- a further `-v` pushes the snapshot of the machine before it, and starts without one
          refine ⟨[], lead :: others, rfl, ?_⟩
          rw [set_of_fileOf_some hfile, if_neg (Nat.ne_of_gt h), List.append_assoc]
          rfl

/-- An option that names no file is among the options of the first machine. -/
theorem sections_cons {p : Parsed} (h : fileOf p = none) (parsed : List Parsed) :
    sections (p :: parsed) = (sections parsed).modifyHead (p :: ·) := by
  rw [sections, sections, List.splitOnP_cons_eq_if_modifyHead, h]
  rcases parsed.splitOnP fun p => (fileOf p).isSome with _ | ⟨lead, _ | ⟨first, others⟩⟩ <;> rfl

/-- **Before any machine** the options are the first machine's. -/
theorem snapshots_of_zero {o : Options} (h : o.vm_num = 0) (parsed : List Parsed) :
    ∃ first others, sections parsed = first :: others
      ∧ snapshots o parsed = o.snapshot_Files ++ lastSnapshot o.snapshot_name first
        :: others.map (lastSnapshot noSnapshot) := by
  induction parsed generalizing o with
  | nil => exact ⟨[], [], rfl, rfl⟩
  | cons p parsed ih =>
      rw [snapshots, List.foldl_cons, ← snapshots]
      cases hfile : fileOf p with
      | none =>
          obtain ⟨first, others, hsections, hpushed⟩ : ∃ first others, sections parsed = first :: others
              ∧ snapshots (o.set p) parsed = _ := ih (by rwa [set_of_fileOf_none hfile])
          refine ⟨p :: first, others, ?_, ?_⟩
          · rw [sections_cons hfile, hsections]
            rfl
          · rw [hpushed, set_of_fileOf_none hfile, lastSnapshot_cons]
      | some file =>
          -- the first `-v` pushes no snapshot, and the name that was set before it stays
          have hset : o.set p
              = { o with assembly_Files := o.assembly_Files ++ [file], vm_num := 1 } := by
            rw [set_of_fileOf_some hfile, if_pos h]
          have hone : 0 < (o.set p).vm_num := by
            rw [hset]
            exact Nat.one_pos
          obtain ⟨lead, others, hsplit, hpushed⟩ := snapshots_of_pos hone parsed
          refine ⟨lead, others, ?_, ?_⟩
          · rw [sections, List.splitOnP_cons_eq_if_modifyHead, hfile, hsplit]
            rfl
          · rw [hpushed, hset]

/-- The configuration files are pushed one after the other. -/
theorem assembly_Files_foldl (o : Options) (parsed : List Parsed) :
    (parsed.foldl Options.set o).assembly_Files = o.assembly_Files ++ parsed.filterMap fileOf := by
  induction parsed generalizing o with
  | nil => rw [List.foldl_nil, List.filterMap_nil, List.append_nil]
  | cons p parsed ih =>
      rw [List.foldl_cons, ih, List.filterMap_cons]
      cases hfile : fileOf p with
      | none => rw [set_of_fileOf_none hfile]
      | some file =>
          have hpush : (o.set p).assembly_Files = o.assembly_Files ++ [file] := by
            rw [set_of_fileOf_some hfile]
            split <;> rfl
          rw [hpush, List.append_assoc, List.singleton_append]

/-- **What the options of a command line name**: the configuration files in the order of their `-v`, and
for each machine the last snapshot among its options. -/
theorem options_eq (args : List (List Byte)) :
    (options args).assembly_Files = (getopt none args).filterMap fileOf
      ∧ (options args).snapshot_Files = (sections (getopt none args)).map (lastSnapshot noSnapshot) := by
  have hzero : ({} : Options).vm_num = 0 := rfl
  obtain ⟨first, others, hsections, hpushed⟩ := snapshots_of_zero hzero (getopt none args)
  constructor
  · rw [options, assembly_Files_foldl]
    rfl
  · rw [hsections]
    exact hpushed

end CommandLine

end VmmShowcase
