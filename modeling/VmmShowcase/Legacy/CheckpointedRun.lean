import VmmShowcase.Legacy.Checkpointing

/-! # The runs of the legacy program with snapshots

What `main` of `src/homework1.cc` makes of its arguments and files, and when it returns. If no machine is
saved into a file that is being executed, the instruction files stay as they were when they were opened,
and the two machines are executed as each is alone. -/

namespace VmmShowcase

open Text TextStream CommandLine

namespace Homework1

/-! ## The machines of the program -/

/-- A line of a snapshot sets registers, `hi` and `low`, and nothing else. -/
theorem loadLine_frame {obj obj' : VmClass} {line : List Byte} (h : loadLine obj line = some obj') :
    obj' = { obj with registers := obj'.registers, hi := obj'.hi, low := obj'.low } := by
  rw [loadLine] at h
  split at h
  · simp only [Option.bind_eq_bind, Option.bind_eq_some_iff] at h
    obtain ⟨reg_num, -, value, -, i, -, h⟩ := h
    cases h
    rfl
  split at h
  · obtain ⟨value, -, h⟩ := Option.bind_eq_some_iff.mp h
    cases h
    rfl
  split at h
  · obtain ⟨value, -, h⟩ := Option.bind_eq_some_iff.mp h
    cases h
    rfl
  · cases h
    rfl

/-- So does a snapshot. -/
theorem loadSnapshot_frame {files : Table (List Byte) (List Byte)} {path : List Byte}
    {obj obj' : VmClass} (h : loadSnapshot files path obj = some obj') :
    obj' = { obj with registers := obj'.registers, hi := obj'.hi, low := obj'.low } := by
  rw [loadSnapshot] at h
  cases hfile : files path with
  | none =>
      rw [hfile] at h
      cases h
      rfl
  | some text =>
      rw [hfile] at h
      simp only at h
      generalize (ofText text).linesLeft = lines at h
      induction lines generalizing obj with
      | nil => cases h; rfl
      | cons line lines ih =>
          rw [List.foldlM_cons, Option.bind_eq_bind] at h
          obtain ⟨between, hline, h⟩ := Option.bind_eq_some_iff.mp h
          rw [ih h, loadLine_frame hline]

/-- What `main` makes of a snapshot and a configuration file. -/
theorem machine_cases {files : Table (List Byte) (List Byte)} {indeterminate : Word}
    {name snapshot_name file : List Byte} {vm : VmClass}
    (h : machine files indeterminate name snapshot_name file = some vm) :
    ∃ saved config,
      loadNamed files snapshot_name
        { vm_exec_slice_in_instructions := indeterminate, vm_binary := [], name } = some saved
      ∧ Configuration.read (openFile (files (inputFiles ++ file))) ⟨indeterminate, []⟩ = some config
      ∧ vm = {
        registers := saved.registers
        hi := saved.hi
        low := saved.low
        vm_exec_slice_in_instructions := config.vm_exec_slice_in_instructions
        vm_binary := config.vm_binary
        name } := by
  rw [machine] at h
  obtain ⟨saved, hsaved, h⟩ := Option.bind_eq_some_iff.mp h
  obtain ⟨config, hconfig, h⟩ := Option.bind_eq_some_iff.mp h
  -- loading leaves what the constructor and the configuration set
  have hframe : saved = { saved with
      pc := 0
      vm_exec_slice_in_instructions := indeterminate
      vm_binary := []
      name := name } := by
    rw [loadNamed] at hsaved
    split at hsaved
    · cases hsaved
      rfl
    · exact loadSnapshot_frame hsaved
  rw [hframe] at hconfig h
  cases h
  exact ⟨saved, config, hsaved, hconfig, rfl⟩

/-- A machine whose snapshot loads and whose configuration file converts is made. -/
theorem exists_machine {files : Table (List Byte) (List Byte)} {indeterminate : Word}
    {name snapshot_name file : List Byte} {saved : VmClass} {config : Configuration}
    (hsaved : loadNamed files snapshot_name
      { vm_exec_slice_in_instructions := indeterminate, vm_binary := [], name } = some saved)
    (hconfig : Configuration.read (openFile (files (inputFiles ++ file)))
      ⟨saved.vm_exec_slice_in_instructions, saved.vm_binary⟩ = some config) :
    machine files indeterminate name snapshot_name file = some { saved with
      vm_exec_slice_in_instructions := config.vm_exec_slice_in_instructions
      vm_binary := config.vm_binary } := by
  rw [machine, hsaved, Option.bind_eq_bind, Option.bind_some, hconfig]
  rfl

/-- The path of the instruction file of a machine. -/
def binaryPath (files : Table (List Byte) (List Byte)) (args : List (List Byte)) (k : Nat) :
    Option (List Byte) := do
  let file ← (options args).assembly_Files[k]?
  let config ← Configuration.read (openFile (files (inputFiles ++ file))) ⟨0, []⟩
  return inputFiles ++ config.vm_binary

/-- The lines of the instruction file of a machine. -/
def program (files : Table (List Byte) (List Byte)) (args : List (List Byte)) (k : Nat) :
    Option (List (List Byte)) := do
  let path ← binaryPath files args k
  let text ← files path
  return (ofText text).linesLeft

section Directory

variable {files : Table (List Byte) (List Byte)} {args : List (List Byte)} {k : Nat}
  {lines : List (List Byte)} {indeterminate : Word} {name snapshot_name file : List Byte}
  {vm : VmClass}

/-- The slice of a machine has no part in which file it executes. -/
theorem binaryPath_of_machine (hfile : (options args).assembly_Files[k]? = some file)
    (hvm : machine files indeterminate name snapshot_name file = some vm) :
    binaryPath files args k = some (inputFiles ++ vm.vm_binary) := by
  obtain ⟨saved, config, -, hconfig, rfl⟩ := machine_cases hvm
  rw [Configuration.read_eq_some_iff] at hconfig
  -- whatever the slice, the configuration converts, and names the same file
  obtain ⟨config', hconfig'⟩ : ∃ config',
      Configuration.read (openFile (files (inputFiles ++ file))) ⟨0, []⟩ = some config' :=
    ⟨_, Configuration.read_eq_some_iff.mpr ⟨hconfig.1, rfl⟩⟩
  have hbinary : config'.vm_binary = config.vm_binary := by
    rw [(Configuration.read_eq_some_iff.mp hconfig').2, hconfig.2]
    rfl
  rw [binaryPath, hfile, Option.bind_eq_bind, Option.bind_some, hconfig', Option.bind_eq_bind,
    Option.bind_some, hbinary]
  rfl

/-- A machine executes the lines of its program, if its file is there. -/
theorem program_eq (hfile : (options args).assembly_Files[k]? = some file)
    (hvm : machine files indeterminate name snapshot_name file = some vm) :
    program files args k
      = (files (inputFiles ++ vm.vm_binary)).map fun text => (ofText text).linesLeft := by
  rw [program, binaryPath_of_machine hfile hvm, Option.bind_eq_bind, Option.bind_some]
  cases files (inputFiles ++ vm.vm_binary) <;> rfl

/-- A machine with a program finds its file. -/
theorem exists_text_of_program (hprogram : program files args k = some lines)
    (hfile : (options args).assembly_Files[k]? = some file)
    (hvm : machine files indeterminate name snapshot_name file = some vm) :
    ∃ text, files (inputFiles ++ vm.vm_binary) = some text ∧ (ofText text).linesLeft = lines := by
  rw [program_eq hfile hvm, Option.map_eq_some_iff] at hprogram
  exact hprogram

/-- A machine executes the lines of its program. -/
theorem linesLeft_of_program (hprogram : program files args k = some lines)
    (hfile : (options args).assembly_Files[k]? = some file)
    (hvm : machine files indeterminate name snapshot_name file = some vm) {text : List Byte}
    (htext : files (inputFiles ++ vm.vm_binary) = some text) : (ofText text).linesLeft = lines := by
  rw [program_eq hfile hvm, htext, Option.map_some, Option.some.injEq] at hprogram
  exact hprogram

/-- What is read from an instruction file stands in the program. -/
theorem exists_program_of_mem (hfile : (options args).assembly_Files[k]? = some file)
    (hvm : machine files indeterminate name snapshot_name file = some vm) {line : List Byte}
    (hline : line ∈ (instructionsFile files vm).linesLeft) :
    ∃ lines, program files args k = some lines ∧ line ∈ lines := by
  rw [program_eq hfile hvm]
  rw [instructionsFile] at hline
  cases htext : files (inputFiles ++ vm.vm_binary) with
  | none =>
      -- from a file that is not found no line is read
      have hnil : (openFile none).linesLeft = [] := linesLeft_of_getline_fails rfl
      rw [htext, hnil] at hline
      cases hline
  | some text =>
      rw [htext] at hline
      exact ⟨_, rfl, hline⟩

end Directory

section Whole

variable {ι : Type} [DecidableEq ι] {resolve : List Byte → ι} {opens : List Byte → Bool}
  {files : Table ι (List Byte)} {indeterminate₁ indeterminate₂ : Word} {args : List (List Byte)}
  {vm1 vm2 : VmClass} {world : World ι}

omit [DecidableEq ι] in
/-- What `main` has before its loop. -/
theorem start_eq_some_iff {m : TimeSlicing.State VmClass (World ι)} :
    start resolve files indeterminate₁ indeterminate₂ args = some m
      ↔ ∃ snapshot₁ file₁ vm1, (options args).snapshot_Files[0]? = some snapshot₁
        ∧ (options args).assembly_Files[0]? = some file₁
        ∧ machine (byPath resolve files) indeterminate₁ firstName snapshot₁ file₁ = some vm1
        ∧ ∃ snapshot₂ file₂ vm2, (options args).snapshot_Files[1]? = some snapshot₂
          ∧ (options args).assembly_Files[1]? = some file₂
          ∧ machine (byPath resolve files) indeterminate₂ secondName snapshot₂ file₂ = some vm2
          ∧ m = ⟨instructionsFile (byPath resolve files) vm1, vm1,
            instructionsFile (byPath resolve files) vm2, vm2, { files }⟩ := by
  rw [start]
  simp only [Option.bind_eq_bind, Option.bind_eq_some_iff, Option.pure_def, Option.some.injEq]
  constructor
  · rintro ⟨snapshot₁, h₁, file₁, h₂, vm1, h₃, snapshot₂, h₄, file₂, h₅, vm2, h₆, rfl⟩
    exact ⟨snapshot₁, file₁, vm1, h₁, h₂, h₃, snapshot₂, file₂, vm2, h₄, h₅, h₆, rfl⟩
  · rintro ⟨snapshot₁, file₁, vm1, h₁, h₂, h₃, snapshot₂, file₂, vm2, h₄, h₅, h₆, rfl⟩
    exact ⟨snapshot₁, h₁, file₁, h₂, vm1, h₃, snapshot₂, h₄, file₂, h₅, vm2, h₆, rfl⟩

/-- No line of the two programs saves a machine into the file of one of them. -/
def SparesPrograms (resolve : List Byte → ι) (files : Table ι (List Byte)) (args : List (List Byte)) :
    Prop :=
  ∀ k < 2, ∀ path, binaryPath (byPath resolve files) args k = some path →
    ∀ l < 2, ∀ lines, program (byPath resolve files) args l = some lines →
      ∀ line ∈ lines, ¬ Saves resolve (resolve path) line

omit [DecidableEq ι] in
/-- What a machine reads saves no machine into the file of one of them. -/
theorem SparesPrograms.not_saves (hspares : SparesPrograms resolve files args) {k l : Nat} (hk : k < 2)
    (hl : l < 2) {name name' snapshot_name snapshot_name' file file' : List Byte}
    {indeterminate indeterminate' : Word} {vm vm' : VmClass}
    (hfile : (options args).assembly_Files[k]? = some file)
    (hvm : machine (byPath resolve files) indeterminate name snapshot_name file = some vm)
    (hfile' : (options args).assembly_Files[l]? = some file')
    (hvm' : machine (byPath resolve files) indeterminate' name' snapshot_name' file' = some vm')
    {line : List Byte} (hline : line ∈ (instructionsFile (byPath resolve files) vm').linesLeft) :
    ¬ Saves resolve (binary resolve vm) line := by
  obtain ⟨lines, hlines, hmem⟩ := exists_program_of_mem hfile' hvm' hline
  exact hspares k hk _ (binaryPath_of_machine hfile hvm) l hl lines hlines line hmem

/-- **Programs that spare their files** are executed as they were when they were opened. -/
theorem endsFrom_iff_ends (hspares : SparesPrograms resolve files args)
    {m : TimeSlicing.State VmClass (World ι)}
    (hstart : start resolve files indeterminate₁ indeterminate₂ args = some m) :
    (∃ file₁ file₂, TimeSlicing.EndsFrom (World.Delivers (binary resolve m.machine₁))
        (World.Delivers (binary resolve m.machine₂)) quantum (executeLine resolve opens) m
        { file₁, machine₁ := vm1, file₂, machine₂ := vm2, world })
      ↔ TimeSlicing.Ends quantum (executeLine resolve opens) m vm1 vm2 world := by
  obtain ⟨snapshot₁, file₁, vm₁, -, hfile₁, hvm₁, snapshot₂, file₂, vm₂, -, hfile₂, hvm₂, rfl⟩ :=
    start_eq_some_iff.mp hstart
  have hspared {l : Nat} (hl : l < 2) {file name snapshot_name : List Byte} {indeterminate : Word}
      {vm : VmClass} (hfile : (options args).assembly_Files[l]? = some file)
      (hvm : machine (byPath resolve files) indeterminate name snapshot_name file = some vm) :
      ∀ line ∈ (instructionsFile (byPath resolve files) vm).linesLeft,
        ∀ written ∈ [binary resolve vm₁, binary resolve vm₂], ¬ Saves resolve written line := by
    intro line hline written hwritten
    rcases List.mem_pair.mp hwritten with rfl | rfl
    · exact hspares.not_saves Nat.zero_lt_two hl hfile₁ hvm₁ hfile hvm hline
    · exact hspares.not_saves Nat.one_lt_two hl hfile₂ hvm₂ hfile hvm hline
  -- the two files stay as they are, and the lines that are left leave them so
  exact exists_congr fun _ => exists_congr fun _ => TimeSlicing.endsFrom_iff
    (quietlyDelivers (binary resolve vm₁) fun world h => h _ (List.mem_cons_self ..))
    (quietlyDelivers (binary resolve vm₂) fun world h =>
      h _ (List.mem_cons_of_mem _ (List.mem_singleton_self _)))
    (keepsQuiet [binary resolve vm₁, binary resolve vm₂]) (fun _ _ => List.not_mem_nil)
    (hspared Nat.zero_lt_two hfile₁ hvm₁) (hspared Nat.one_lt_two hfile₂ hvm₂)

/-- The `k`-th machine of the program executed alone, in files that its own snapshots do not change: its
options make it, and its instruction file takes it to `vm`. The trace has the effects of each line. -/
def Executes (resolve : List Byte → ι) (opens : List Byte → Bool) (files : Table ι (List Byte))
    (indeterminate : Word) (args : List (List Byte)) (k : Nat) (name : List Byte) (vm : VmClass)
    (trace : List (List (Effect ι))) : Prop :=
  ∃ snapshot_name file vm₀, (options args).snapshot_Files[k]? = some snapshot_name
    ∧ (options args).assembly_Files[k]? = some file
    ∧ machine (byPath resolve files) indeterminate name snapshot_name file = some vm₀
    ∧ TimeSlicing.Executes quantum (emit resolve opens)
      (byPath resolve files (inputFiles ++ vm₀.vm_binary)) vm₀ vm trace

/-- A program that returns has executed each machine as it executes alone. -/
theorem Returns.executes (hspares : SparesPrograms resolve files args)
    (h : Returns resolve opens files indeterminate₁ indeterminate₂ args vm1 vm2 world) :
    ∃ trace₁ trace₂, Executes resolve opens files indeterminate₁ args 0 firstName vm1 trace₁
      ∧ Executes resolve opens files indeterminate₂ args 1 secondName vm2 trace₂
      ∧ 0 < quantum vm1 ∧ world = (TimeSlicing.turns (quantum vm1) (quantum vm2) trace₁
        trace₂).flatten.foldl World.apply { files } := by
  obtain ⟨m, hstart, hends⟩ := h
  replace hends := (endsFrom_iff_ends hspares hstart).mp hends
  obtain ⟨snapshot₁, file₁, vm₁, hsnapshot₁, hfile₁, hvm₁, snapshot₂, file₂, vm₂, hsnapshot₂, hfile₂,
    hvm₂, rfl⟩ := start_eq_some_iff.mp hstart
  obtain ⟨trace₁, trace₂, h₁, h₂, hworld⟩ :=
    (TimeSlicing.ends_openFile_iff (emits resolve opens) quantum_of_emit).mp hends
  have hslice : 0 < quantum vm1 := by
    obtain ⟨hslice, text, -, hsolo⟩ := h₁
    rwa [TimeSlicing.solo_invariant quantum_of_emit hsolo]
  exact ⟨trace₁, trace₂, ⟨snapshot₁, file₁, vm₁, hsnapshot₁, hfile₁, hvm₁, h₁⟩,
    ⟨snapshot₂, file₂, vm₂, hsnapshot₂, hfile₂, hvm₂, h₂⟩, hslice, hworld⟩

/-- A program whose machines can be executed alone returns. -/
theorem returns_of_executes (hspares : SparesPrograms resolve files args)
    {trace₁ trace₂ : List (List (Effect ι))}
    (h₁ : Executes resolve opens files indeterminate₁ args 0 firstName vm1 trace₁)
    (h₂ : Executes resolve opens files indeterminate₂ args 1 secondName vm2 trace₂) :
    Returns resolve opens files indeterminate₁ indeterminate₂ args vm1 vm2
      ((TimeSlicing.turns (quantum vm1) (quantum vm2) trace₁ trace₂).flatten.foldl World.apply
        { files }) := by
  obtain ⟨snapshot₁, file₁, vm₁, hsnapshot₁, hfile₁, hvm₁, h₁⟩ := h₁
  obtain ⟨snapshot₂, file₂, vm₂, hsnapshot₂, hfile₂, hvm₂, h₂⟩ := h₂
  have hstart := start_eq_some_iff.mpr ⟨snapshot₁, file₁, vm₁, hsnapshot₁, hfile₁, hvm₁, snapshot₂,
    file₂, vm₂, hsnapshot₂, hfile₂, hvm₂, rfl⟩
  exact ⟨_, hstart, (endsFrom_iff_ends hspares hstart).mpr ((TimeSlicing.ends_openFile_iff
    (emits resolve opens) quantum_of_emit).mpr ⟨trace₁, trace₂, h₁, h₂, rfl⟩)⟩

/-- **When the program with snapshots returns, and what it does**, if its machines are saved into other
files than the instructions are read from: it returns exactly when its two machines can be executed
alone, and then as they do alone, with the effects on the files and the output dealt out slice by slice.
-/
theorem returns_iff_executes (hspares : SparesPrograms resolve files args) :
    Returns resolve opens files indeterminate₁ indeterminate₂ args vm1 vm2 world
      ↔ ∃ trace₁ trace₂, Executes resolve opens files indeterminate₁ args 0 firstName vm1 trace₁
        ∧ Executes resolve opens files indeterminate₂ args 1 secondName vm2 trace₂
        ∧ world = (TimeSlicing.turns (quantum vm1) (quantum vm2) trace₁ trace₂).flatten.foldl
          World.apply { files } := by
  constructor
  · intro h
    obtain ⟨trace₁, trace₂, h₁, h₂, -, hworld⟩ := h.executes hspares
    exact ⟨trace₁, trace₂, h₁, h₂, hworld⟩
  · rintro ⟨trace₁, trace₂, h₁, h₂, rfl⟩
    exact returns_of_executes hspares h₁ h₂

end Whole

/-! ## A program that saves a machine -/

/-- A text of lines. -/
def fileText (lines : List (List Byte)) : List Byte := lines.flatMap fun line => line ++ [newline]

/-- A configuration with slices of one line. -/
def configText (binary : List Byte) : List Byte := fileText
  [Configuration.sliceKey ++ equals :: bytes ['1'], Configuration.binaryKey ++ equals :: binary]

/-- `li $1,5`. -/
def loadFive : List Byte := bytes ['l', 'i', ' ', '$', '1', ',', '5']

/-- `SNAPSHOT s`. -/
def saveLine : List Byte := snapshotOp ++ space :: bytes ['s']

/-- Three configurations, and their instruction files. -/
def directory : Table (List Byte) (List Byte) := fun path =>
  if path = inputFiles ++ bytes ['a'] then some (configText (bytes ['p']))
  else if path = inputFiles ++ bytes ['b'] then some (configText (bytes ['q']))
  else if path = inputFiles ++ bytes ['c'] then some (configText (bytes ['r']))
  else if path = inputFiles ++ bytes ['p'] then some (fileText [saveLine, loadFive])
  else if path = inputFiles ++ bytes ['q'] then some (fileText [])
  else if path = inputFiles ++ bytes ['r'] then some (fileText [loadFive])
  else none

/-- `-v a -v b`. -/
def firstArgs : List (List Byte) :=
  [bytes ['-', 'v'], bytes ['a'], bytes ['-', 'v'], bytes ['b']]

section Paths

variable {opens : List Byte → Bool} {files : Table (List Byte) (List Byte)} {args : List (List Byte)}

/-- The configuration is read as it is written. -/
theorem read_configText {binary : List Byte} (h : newline ∉ binary) (config : Configuration) :
    Configuration.read (openFile (some (configText binary))) config = some ⟨1, binary⟩ := by
  have hslice : Configuration.assignLine config (Configuration.sliceKey ++ equals :: bytes ['1'])
      = some { config with vm_exec_slice_in_instructions := 1 } := by
    rw [Configuration.assignLine, Configuration.keyOf, takeWhile_append_mark (by decide), if_pos rfl,
      afterMark_append (by decide)]
    rfl
  have hbinary (config : Configuration) :
      Configuration.assignLine config (Configuration.binaryKey ++ equals :: binary)
        = some { config with vm_binary := binary } := by
    rw [Configuration.assignLine, Configuration.keyOf, takeWhile_append_mark (by decide),
      if_neg Configuration.sliceKey_ne_binaryKey.symm, if_pos rfl, afterMark_append (by decide)]
  have hlines : ∀ line ∈ [Configuration.sliceKey ++ equals :: bytes ['1'],
      Configuration.binaryKey ++ equals :: binary], newline ∉ line := by
    intro line hline
    rcases List.mem_pair.mp hline with rfl | rfl
    · decide
    · rw [List.mem_append, List.mem_cons, not_or, not_or]
      exact ⟨by decide, by decide, h⟩
  rw [Configuration.read, openFile, configText, fileText, linesLeft_ofText_lines hlines,
    List.foldlM_cons, hslice, Option.bind_eq_bind, Option.bind_some, List.foldlM_cons, hbinary]
  rfl

/-- The program of a machine with such a configuration. -/
theorem program_of_configText {k : Nat} (file binary : List Byte) {lines : List (List Byte)}
    (hfile : (options args).assembly_Files[k]? = some file)
    (hconfig : files (inputFiles ++ file) = some (configText binary)) (hbinary : newline ∉ binary)
    (htext : files (inputFiles ++ binary) = some (fileText lines))
    (hlines : ∀ line ∈ lines, newline ∉ line) : program files args k = some lines := by
  have hpath : binaryPath files args k = some (inputFiles ++ binary) := by
    rw [binaryPath, hfile, Option.bind_eq_bind, Option.bind_some, hconfig, read_configText hbinary]
    rfl
  rw [program, hpath, Option.bind_eq_bind, Option.bind_some, htext]
  exact congrArg some (linesLeft_ofText_lines hlines)

/-- The machine of such a configuration, executed alone. -/
theorem executes_of_configText {k : Nat} {name : List Byte} (snapshot_name file binary : List Byte)
    (lines : List (List Byte)) {saved : VmClass}
    (hsnapshot : (options args).snapshot_Files[k]? = some snapshot_name)
    (hfile : (options args).assembly_Files[k]? = some file)
    (hsaved : loadNamed files snapshot_name
      { vm_exec_slice_in_instructions := 0, vm_binary := [], name } = some saved)
    (hconfig : files (inputFiles ++ file) = some (configText binary)) (hbinary : newline ∉ binary)
    (htext : files (inputFiles ++ binary) = some (fileText lines))
    (hlines : ∀ line ∈ lines, newline ∉ line) {vm : VmClass}
    {trace : List (List (Effect (List Byte)))}
    (hsolo : TimeSlicing.solo (emit id opens) lines { saved with
      vm_exec_slice_in_instructions := 1
      vm_binary := binary } = some (vm, trace)) :
    Executes id opens files 0 args k name vm trace := by
  have hread : Configuration.read (openFile (files (inputFiles ++ file)))
      ⟨saved.vm_exec_slice_in_instructions, saved.vm_binary⟩ = some ⟨1, binary⟩ := by
    rw [hconfig, read_configText hbinary]
  have hslice : 0 < (1 : Word).toInt.toNat := by decide
  refine ⟨snapshot_name, file, _, hsnapshot, hfile, exists_machine hsaved hread, hslice,
    fileText lines, htext, ?_⟩
  rw [fileText, linesLeft_ofText_lines hlines]
  exact hsolo

/-- Instruction files lie in one directory. -/
theorem prefix_of_binaryPath {k : Nat} {path : List Byte} (h : binaryPath files args k = some path) :
    inputFiles <+: path := by
  rw [binaryPath] at h
  obtain ⟨file, -, h⟩ := Option.bind_eq_some_iff.mp h
  obtain ⟨config, -, h⟩ := Option.bind_eq_some_iff.mp h
  cases h
  exact List.prefix_append ..

/-- So programs spare their files, if no machine is saved into that directory. -/
theorem sparesPrograms_of_outside {lines₁ lines₂ : List (List Byte)}
    (hprogram₁ : program files args 0 = some lines₁) (hprogram₂ : program files args 1 = some lines₂)
    (h : ∀ line ∈ lines₁ ++ lines₂, ∀ path ∈ savedPath line, ¬ inputFiles <+: path) :
    SparesPrograms id files args := by
  intro k _ path hpath l hl lines hlines line hline hsaves
  have hprogram : program files args l = some lines := hlines
  have hmem : line ∈ lines₁ ++ lines₂ := by
    rcases Nat.le_one_iff_eq_zero_or_eq_one.mp (Nat.le_of_lt_succ hl) with rfl | rfl
    · rw [hprogram₁, Option.some.injEq] at hprogram
      exact List.mem_append_left _ (hprogram ▸ hline)
    · rw [hprogram₂, Option.some.injEq] at hprogram
      exact List.mem_append_right _ (hprogram ▸ hline)
  obtain ⟨path', hpath', hsame⟩ := Option.map_eq_some_iff.mp hsaves.2
  obtain rfl : path' = path := hsame
  exact h line hmem path' hpath' (prefix_of_binaryPath hpath)

end Paths

/-- The programs of the first process. -/
theorem program_firstArgs : program directory firstArgs 0 = some [saveLine, loadFive]
    ∧ program directory firstArgs 1 = some [] :=
  ⟨program_of_configText (bytes ['a']) (bytes ['p']) (by decide) (by decide) (by decide) (by decide)
    (by decide),
  program_of_configText (bytes ['b']) (bytes ['q']) (by decide) (by decide) (by decide) (by decide)
    (by decide)⟩

/-- They save a machine, but not over a program. -/
theorem sparesPrograms_firstArgs : SparesPrograms id directory firstArgs :=
  sparesPrograms_of_outside program_firstArgs.1 program_firstArgs.2 (by decide)

/-- Its machines are executed alone. -/
theorem exists_executes_firstArgs :
    (∃ vm trace, Executes id (fun _ => true) directory 0 firstArgs 0 firstName vm trace)
    ∧ ∃ vm trace, Executes id (fun _ => true) directory 0 firstArgs 1 secondName vm trace := by
  have hfirst : (TimeSlicing.solo (emit id fun _ => true) [saveLine, loadFive]
      ⟨{}, 1, bytes ['p'], firstName⟩).isSome := by decide
  obtain ⟨⟨vm, trace⟩, hsolo⟩ := Option.isSome_iff_exists.mp hfirst
  exact ⟨⟨vm, trace, executes_of_configText noSnapshot (bytes ['a']) (bytes ['p']) [saveLine, loadFive]
      (by decide) (by decide) rfl (by decide) (by decide) (by decide) (by decide) hsolo⟩,
    _, _, executes_of_configText noSnapshot (bytes ['b']) (bytes ['q']) [] (by decide) (by decide) rfl
      (by decide) (by decide) (by decide) (by decide) rfl⟩

/-- So it returns. -/
theorem returns_iff_executes_firstArgs :
    ∃ vm1 vm2 world, Returns id (fun _ => true) directory 0 0 firstArgs vm1 vm2 world := by
  obtain ⟨⟨vm1, trace₁, h₁⟩, vm2, trace₂, h₂⟩ := exists_executes_firstArgs
  exact ⟨vm1, vm2, _, (returns_iff_executes sparesPrograms_firstArgs).mpr ⟨trace₁, trace₂, h₁, h₂, rfl⟩⟩

end Homework1

end VmmShowcase
