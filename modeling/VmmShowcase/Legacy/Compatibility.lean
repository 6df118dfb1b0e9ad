import VmmShowcase.Legacy.CheckpointedRun
import VmmShowcase.Legacy.TimeSharing

/-! # The program with snapshots executes the programs of the first one

`src/homework1.cc` skips empty lines, on which `src/project.cc` ends, and saves a machine where
`src/project.cc` looks for an operand. Otherwise the two take the same files to the same machines. -/

namespace VmmShowcase

open Text TextStream CommandLine

namespace Project

/-- A line on which the first program does not end while the other one goes on: it is not empty, and an
operand stands behind `SNAPSHOT`. -/
def Reads (line : List Byte) : Prop :=
  line ≠ [] ∧ (opcodeOf line = snapshotOp → (VmmShowcase.solve line {}).isSome)

/-- `SNAPSHOT` is no operation of the first program. -/
theorem solveOperands_snapshotOp (ss : TextStream) (m : VmmShowcase.VmClass) :
    solveOperands snapshotOp ss m
      = (stoi (afterDollar (getline comma [] ss).1)).map fun _ => m := by
  rw [solveOperands]
  generalize getline comma [] ss = read
  obtain ⟨destRegister, ss⟩ := read
  cases hdest : stoi (afterDollar destRegister) <;> simp only [hdest] <;> rfl

/-- So it changes no machine, if it has an operand. -/
theorem solve_of_snapshotOp {line : List Byte} (h : opcodeOf line = snapshotOp)
    (m : VmmShowcase.VmClass) :
    VmmShowcase.solve line m = (VmmShowcase.solve line {}).map fun _ => m := by
  rw [opcodeOf] at h
  rw [VmmShowcase.solve, VmmShowcase.solve]
  generalize getline space [] (ofText line) = read at h ⊢
  obtain ⟨opcode, ss⟩ := read
  obtain rfl : opcode = snapshotOp := h
  have hdump : snapshotOp ≠ dumpProcessorState := by decide
  simp only [if_neg hdump, solveOperands_snapshotOp, Option.map_map]
  rfl

/-- A line without a blank has no operand. -/
theorem contains_space_of_solve {line : List Byte} (hdump : opcodeOf line ≠ dumpProcessorState)
    {m m' : VmmShowcase.VmClass} (h : VmmShowcase.solve line m = some m') :
    line.contains space = true := by
  by_contra hspace
  have hfree : space ∉ line := fun hmem => hspace (List.contains_iff_mem.mpr hmem)
  rcases eq_or_ne line [] with rfl | hne
  · cases h
  · rw [opcodeOf, getline_last hfree hne] at hdump
    rw [VmmShowcase.solve, getline_last hfree hne] at h
    simp only [if_neg hdump] at h
    cases h

/-- **A line of the first program** does to a machine what it does in the other one, if it can be read. -/
theorem solve_eq_some_iff {line : List Byte} {m m' : VmmShowcase.VmClass} :
    VmmShowcase.solve line m = some m' ↔ Reads line ∧ Server.solve line m = some m' := by
  by_cases hop : opcodeOf line = snapshotOp
  · have hdump : opcodeOf line ≠ dumpProcessorState := by
      rw [hop]
      decide
    have hserver : Server.solve line m = if line.contains space then some m else none :=
      (if_neg hdump).trans (if_pos hop)
    have hempty : line ≠ [] := by
      rintro rfl
      exact absurd hop (by decide)
    rw [solve_of_snapshotOp hop, hserver, Reads, and_iff_right hempty]
    constructor
    · intro h
      obtain ⟨m₀, hm₀, rfl⟩ := Option.map_eq_some_iff.mp h
      rw [hm₀, contains_space_of_solve hdump hm₀]
      exact ⟨fun _ => rfl, rfl⟩
    · rintro ⟨hreads, h⟩
      obtain ⟨m₀, hm₀⟩ := Option.isSome_iff_exists.mp (hreads hop)
      rw [contains_space_of_solve hdump hm₀] at h
      rw [hm₀]
      exact h
  · rw [Server.solve_eq_solve hop, Reads]
    constructor
    · intro h
      have hempty : line ≠ [] := by
        rintro rfl
        cases h
      exact ⟨⟨hempty, fun h => absurd h hop⟩, h⟩
    · exact fun h => h.2

/-- What a file does to a machine is what its first line does, and then the others. -/
theorem solo_machine_cons (line : List Byte) (lines : List (List Byte)) (obj : VmClass) :
    (TimeSlicing.solo emit (line :: lines) obj).map (fun p => p.1.toVmClass)
      = (VmmShowcase.solve line obj.toVmClass).bind fun m =>
        (TimeSlicing.solo emit lines { obj with toVmClass := m }).map fun p => p.1.toVmClass := by
  rw [TimeSlicing.solo_cons, emit, solve_eq, Option.bind_map, Option.map_bind]
  congr 1
  funext m
  rw [Function.comp_apply, Function.comp_apply, Option.map_map]
  rfl

/-- **So does a file.** -/
theorem solo_machine_eq_some_iff {lines : List (List Byte)} {obj : VmClass}
    {m : VmmShowcase.VmClass} :
    (TimeSlicing.solo emit lines obj).map (fun p => p.1.toVmClass) = some m
      ↔ (∀ line ∈ lines, Reads line) ∧ Server.execute lines obj.toVmClass = some m := by
  induction lines generalizing obj with
  | nil => simp [TimeSlicing.solo, Server.execute]
  | cons line lines ih =>
      rw [solo_machine_cons, Option.bind_eq_some_iff, Server.execute, List.forall_mem_cons]
      simp only [ih, solve_eq_some_iff]
      constructor
      · rintro ⟨m₁, ⟨hline, hsolve⟩, hlines, hexecute⟩
        rw [if_neg hline.1, hsolve]
        exact ⟨⟨hline, hlines⟩, hexecute⟩
      · rintro ⟨⟨hline, hlines⟩, hexecute⟩
        rw [if_neg hline.1] at hexecute
        obtain ⟨m₁, hsolve, hexecute⟩ := Option.bind_eq_some_iff.mp hexecute
        exact ⟨m₁, ⟨hline, hsolve⟩, hlines, hexecute⟩

end Project

/-! ## Whole programs -/

/-- The same files, in the directory of each program. -/
def SameFiles (files files' : Table (List Byte) (List Byte)) : Prop :=
  ∀ name, files' (Homework1.inputFiles ++ name) = files (Project.inputFiles ++ name)

section Whole

variable {ι : Type} [DecidableEq ι] {resolve : List Byte → ι} {opens : List Byte → Bool}
  {files : Table (List Byte) (List Byte)} {files' : Table ι (List Byte)}
  {indeterminate indeterminate₁ indeterminate₂ : Word} {args args' : List (List Byte)}
  {m₁ m₂ m : VmClass}

omit [DecidableEq ι] in
/-- A machine that is not loaded is executed alone by both programs. -/
theorem executes_iff (hfiles : SameFiles files (Homework1.byPath resolve files')) {k : Nat}
    {name : List Byte} {lines : List (List Byte)}
    (hnames : Project.assemblyFiles args = some (options args').assembly_Files)
    (hsnapshot : (options args').snapshot_Files[k]? = some noSnapshot)
    (hprogram : Homework1.program (Homework1.byPath resolve files') args' k = some lines) :
    (∃ vm trace, Project.Executes files indeterminate args k vm trace ∧ vm.toVmClass = m)
      ↔ (∀ line ∈ lines, Project.Reads line)
        ∧ ∃ vm trace, Homework1.Executes resolve opens files' indeterminate args' k name vm trace
          ∧ vm.toVmClass = m := by
  have hload (obj : Homework1.VmClass) :
      Homework1.loadNamed (Homework1.byPath resolve files') noSnapshot obj = some obj := if_pos rfl
  constructor
  · rintro ⟨vm, trace, ⟨names, file, vm₀, hnames', hfile, hvm₀, hslice, text, htext, hsolo⟩, rfl⟩
    rw [hnames, Option.some.injEq] at hnames'
    subst hnames'
    obtain ⟨config, hconfig, rfl⟩ := Option.map_eq_some_iff.mp hvm₀
    rw [← hfiles] at hconfig htext
    have hvm₁ : Homework1.machine (Homework1.byPath resolve files') indeterminate name noSnapshot file
        = _ := Homework1.exists_machine (hload _) hconfig
    have hlines := Homework1.linesLeft_of_program hprogram hfile hvm₁ htext
    rw [hlines] at hsolo
    have hmachine := congrArg (Option.map fun p => p.1.toVmClass) hsolo
    obtain ⟨hreads, hexecute⟩ := Project.solo_machine_eq_some_iff.mp hmachine
    have hsame := (Homework1.solo_machine resolve opens lines ⟨{}, config.vm_exec_slice_in_instructions,
      config.vm_binary, name⟩).trans hexecute
    obtain ⟨⟨vm', trace'⟩, hsolo', hvm'⟩ := Option.map_eq_some_iff.mp hsame
    refine ⟨hreads, vm', trace', ⟨noSnapshot, file, _, hsnapshot, hfile, hvm₁, hslice, text, htext, ?_⟩,
      hvm'⟩
    rw [hlines]
    exact hsolo'
  · rintro ⟨hreads, vm, trace, ⟨snapshot_name, file, vm₀, hsnapshot', hfile, hvm₀, hslice, text, htext,
      hsolo⟩, rfl⟩
    rw [hsnapshot, Option.some.injEq] at hsnapshot'
    subst hsnapshot'
    have hlines := Homework1.linesLeft_of_program hprogram hfile hvm₀ htext
    obtain ⟨saved, config, hsaved, hconfig, rfl⟩ := Homework1.machine_cases hvm₀
    cases hsaved
    rw [hfiles] at hconfig htext
    rw [hlines] at hsolo
    have hmachine := (Homework1.solo_machine resolve opens lines _).symm.trans
      (congrArg (Option.map fun p => p.1.toVmClass) hsolo)
    have hsame : (TimeSlicing.solo Project.emit lines ⟨{}, config⟩).map (fun p => p.1.toVmClass)
        = some vm.toVmClass := Project.solo_machine_eq_some_iff.mpr ⟨hreads, hmachine⟩
    obtain ⟨⟨vm', trace'⟩, hsolo', hvm'⟩ := Option.map_eq_some_iff.mp hsame
    refine ⟨vm', trace', ⟨_, file, ⟨{}, config⟩, hnames, hfile, ?_, hslice, text, htext, ?_⟩, hvm'⟩
    · rw [Project.machine, hconfig, Option.map_some]
    · rw [hlines]
      exact hsolo'

/-- **The program with snapshots executes what the first one does.** In the same files, without snapshots
to load, and if it saves no machine over an instruction file, the first program returns exactly when the
other one does and the lines of both machines can be read by it; the machines end alike. -/
theorem project_returns_iff (hfiles : SameFiles files (Homework1.byPath resolve files'))
    (hspares : Homework1.SparesPrograms resolve files' args')
    (hnames : Project.assemblyFiles args = some (options args').assembly_Files)
    (hsnapshot₁ : (options args').snapshot_Files[0]? = some noSnapshot)
    (hsnapshot₂ : (options args').snapshot_Files[1]? = some noSnapshot)
    {lines₁ lines₂ : List (List Byte)}
    (hprogram₁ : Homework1.program (Homework1.byPath resolve files') args' 0 = some lines₁)
    (hprogram₂ : Homework1.program (Homework1.byPath resolve files') args' 1 = some lines₂) :
    (∃ vm1 vm2 cout, Project.Returns files indeterminate₁ indeterminate₂ args vm1 vm2 cout
      ∧ vm1.toVmClass = m₁ ∧ vm2.toVmClass = m₂)
    ↔ (∀ line ∈ lines₁ ++ lines₂, Project.Reads line)
      ∧ ∃ vm1 vm2 world, Homework1.Returns resolve opens files' indeterminate₁ indeterminate₂ args'
          vm1 vm2 world
        ∧ vm1.toVmClass = m₁ ∧ vm2.toVmClass = m₂ := by
  have hfirst : (∃ vm trace, Project.Executes files indeterminate₁ args 0 vm trace
      ∧ vm.toVmClass = m₁) ↔ _ ∧ ∃ vm trace, Homework1.Executes resolve opens files' indeterminate₁
        args' 0 Homework1.firstName vm trace ∧ vm.toVmClass = m₁ :=
    executes_iff hfiles hnames hsnapshot₁ hprogram₁
  have hsecond : (∃ vm trace, Project.Executes files indeterminate₂ args 1 vm trace
      ∧ vm.toVmClass = m₂) ↔ _ ∧ ∃ vm trace, Homework1.Executes resolve opens files' indeterminate₂
        args' 1 Homework1.secondName vm trace ∧ vm.toVmClass = m₂ :=
    executes_iff hfiles hnames hsnapshot₂ hprogram₂
  rw [List.forall_mem_append]
  constructor
  · rintro ⟨vm1, vm2, cout, hreturns, hvm1, hvm2⟩
    obtain ⟨trace₁, trace₂, h₁, h₂, -⟩ := hreturns.executes
    obtain ⟨hreads₁, vm1', trace₁', h₁', hvm1'⟩ := hfirst.mp ⟨vm1, trace₁, h₁, hvm1⟩
    obtain ⟨hreads₂, vm2', trace₂', h₂', hvm2'⟩ := hsecond.mp ⟨vm2, trace₂, h₂, hvm2⟩
    exact ⟨⟨hreads₁, hreads₂⟩, vm1', vm2', _, Homework1.returns_of_executes hspares h₁' h₂', hvm1', hvm2'⟩
  · rintro ⟨⟨hreads₁, hreads₂⟩, vm1, vm2, world, hreturns, hvm1, hvm2⟩
    obtain ⟨trace₁, trace₂, h₁, h₂, -⟩ := hreturns.executes hspares
    obtain ⟨vm1', trace₁', h₁', hvm1'⟩ := hfirst.mpr ⟨hreads₁, vm1, trace₁, h₁, hvm1⟩
    obtain ⟨vm2', trace₂', h₂', hvm2'⟩ := hsecond.mpr ⟨hreads₂, vm2, trace₂, h₂, hvm2⟩
    exact ⟨vm1', vm2', _, Project.returns_of_executes h₁' h₂', hvm1', hvm2'⟩

end Whole

/-- The files of the program with snapshots, where the first program looks for them. -/
def movedDirectory : Table (List Byte) (List Byte) := fun path =>
  Homework1.directory (Homework1.inputFiles ++ path.drop Project.inputFiles.length)

/-- Both programs find the same files. -/
theorem sameFiles_movedDirectory : SameFiles movedDirectory Homework1.directory := by
  intro name
  rw [movedDirectory, List.drop_left]

/-- A program that saves its first machine cannot be read by the first program. -/
theorem project_returns_iff_movedDirectory :
    (∃ vm1 vm2 cout, Project.Returns movedDirectory 0 0 Homework1.firstArgs vm1 vm2 cout
      ∧ vm1.toVmClass = {} ∧ vm2.toVmClass = {})
    ↔ (∀ line ∈ [Homework1.saveLine, Homework1.loadFive] ++ [], Project.Reads line)
      ∧ ∃ vm1 vm2 world, Homework1.Returns id (fun _ => true) Homework1.directory 0 0
        Homework1.firstArgs vm1 vm2 world ∧ vm1.toVmClass = {} ∧ vm2.toVmClass = {} :=
  project_returns_iff sameFiles_movedDirectory Homework1.sparesPrograms_firstArgs (by decide)
    (by decide) (by decide) Homework1.program_firstArgs.1 Homework1.program_firstArgs.2

end VmmShowcase
