import VmmShowcase.Foundations.LazyReading
import VmmShowcase.Legacy.CommandLine
import VmmShowcase.Legacy.Configuration
import VmmShowcase.Legacy.Resumption

/-! # The legacy program with snapshots

`main` of `src/homework1.cc`: the loop of `src/project.cc`, which skips empty lines here, over machines
that a `SNAPSHOT` line saves into a file and a `-s` option loads. The machines share the files and the
standard output. A file can have several paths, such as `s` and `./s`, so files are told apart by what
their paths resolve to; paths that can be opened name regular files. The instruction files are read line by
line while the machines are saved. -/

namespace VmmShowcase

open Text TextStream CommandLine

namespace Homework1

/-- The files and the standard output. What is in `written` was written to since the program started. -/
structure World (ι : Type) where
  files : Table ι (List Byte)
  written : List ι := []
  cout : List Byte := []

/-- `vm1`. -/
def firstName : List Byte := bytes ['v', 'm', '1']

/-- `vm2`. -/
def secondName : List Byte := bytes ['v', 'm', '2']

/-- What `dumpstate` prints. -/
def dumpstate (obj : VmClass) : List Byte :=
  ((if obj.name = firstName then bytes ['V', 'M', '1'] else bytes ['V', 'M', '2']) ++ [newline])
    ++ (snapshotText obj ++ [newline])

section Paths

variable {ι : Type} [DecidableEq ι] (resolve : List Byte → ι) (opens : List Byte → Bool)

/-- The world behind a write. -/
def World.write (world : World ι) (file : ι) (text : List Byte) : World ι :=
  { world with files := world.files.insert file text, written := world.written ++ [file] }

/-- `solve`, in a world where `resolve` says which file a path names, and `opens` which paths can be opened
for writing. -/
def solveIn (instructionsfileline : List Byte) (obj : VmClass) (world : World ι) :
    Option (VmClass × World ι) :=
  let (opcode, ss) := getline space [] (ofText instructionsfileline)
  if opcode = dumpProcessorState then some (obj, { world with cout := world.cout ++ dumpstate obj })
  else if opcode = snapshotOp then
    (instructionsfileline.splitOn space)[1]?.map fun path =>
      (obj, if opens path then world.write (resolve path) (snapshotText obj) else world)
  else (solveOperands opcode ss obj.toVmClass).map fun vm => ({ obj with toVmClass := vm }, world)

/-- What the loop does with a line. -/
def executeLine (line : List Byte) (obj : VmClass) (world : World ι) : Option (VmClass × World ι) :=
  if line = [] then some (obj, world) else solveIn resolve opens line obj world

/-- Where paths are files of their own, this is `solve` in a directory. -/
theorem solve_eq_solveIn (line : List Byte) (obj : VmClass) (files : Table (List Byte) (List Byte)) :
    solve opens line obj files = (solveIn id opens line obj { files }).map fun p =>
      (p.1, p.2.files) := by
  rw [solve, solveIn]
  generalize getline space [] (ofText line) = read
  obtain ⟨opcode, ss⟩ := read
  by_cases hdump : opcode = dumpProcessorState
  · simp only [if_pos hdump, Option.map_some]
  by_cases hsnapshot : opcode = snapshotOp
  · simp only [if_neg hdump, if_pos hsnapshot, Option.map_map]
    congr 1
    funext path
    cases hopens : opens path <;> simp [hopens, World.write]
  · simp only [if_neg hdump, if_neg hsnapshot, Option.map_map]
    rfl

end Paths

/-- `input_files_hw3/`. -/
def inputFiles : List Byte :=
  bytes ['i', 'n', 'p', 'u', 't', '_', 'f', 'i', 'l', 'e', 's', '_', 'h', 'w', '3', '/']

/-- Load the snapshot that the options name for a machine, if they name one. -/
def loadNamed (files : Table (List Byte) (List Byte)) (snapshot_name : List Byte) (obj : VmClass) :
    Option VmClass :=
  if snapshot_name = noSnapshot then some obj else loadSnapshot files snapshot_name obj

/-- A machine as `main` makes it, with the slice that its memory happens to hold: its snapshot, if it has
one, and then its configuration file. -/
def machine (files : Table (List Byte) (List Byte)) (indeterminate : Word)
    (name snapshot_name file : List Byte) : Option VmClass := do
  let vm ← loadNamed files snapshot_name
    { vm_exec_slice_in_instructions := indeterminate, vm_binary := [], name }
  let config ← Configuration.read (openFile (files (inputFiles ++ file)))
    ⟨vm.vm_exec_slice_in_instructions, vm.vm_binary⟩
  return { vm with
    vm_exec_slice_in_instructions := config.vm_exec_slice_in_instructions
    vm_binary := config.vm_binary }

/-- The stream of a machine's instruction file. -/
def instructionsFile (files : Table (List Byte) (List Byte)) (vm : VmClass) : TextStream :=
  openFile (files (inputFiles ++ vm.vm_binary))

/-- The length of a machine's slices. -/
def quantum (vm : VmClass) : Nat := vm.vm_exec_slice_in_instructions.toInt.toNat

section Program

variable {ι : Type} [DecidableEq ι] (resolve : List Byte → ι) (opens : List Byte → Bool)

/-- The files by their paths. -/
def byPath (files : Table ι (List Byte)) : Table (List Byte) (List Byte) := fun path =>
  files (resolve path)

/-- `main` up to its loop. -/
def start (files : Table ι (List Byte)) (indeterminate₁ indeterminate₂ : Word)
    (args : List (List Byte)) : Option (TimeSlicing.State VmClass (World ι)) := do
  let o := options args
  let directory := byPath resolve files
  let vm1 ← machine directory indeterminate₁ firstName (← o.snapshot_Files[0]?)
    (← o.assembly_Files[0]?)
  let vm2 ← machine directory indeterminate₂ secondName (← o.snapshot_Files[1]?)
    (← o.assembly_Files[1]?)
  return {
    file₁ := instructionsFile directory vm1
    machine₁ := vm1
    file₂ := instructionsFile directory vm2
    machine₂ := vm2
    world := { files } }

/-- What the stream of a file delivers: what it did, as long as nothing is written into the file. What
comes then depends on how far the stream has read ahead; its state is its own. -/
def World.Delivers (file : ι) (world : World ι) (stream stream' : TextStream) : Prop :=
  stream'.eofbit = stream.eofbit ∧ stream'.failbit = stream.failbit
    ∧ (file ∉ world.written → stream' = stream)

/-- The instruction file of a machine. -/
def binary (vm : VmClass) : ι := resolve (inputFiles ++ vm.vm_binary)

/-- `main` can return with the given machines, files and output. -/
def Returns (files : Table ι (List Byte)) (indeterminate₁ indeterminate₂ : Word)
    (args : List (List Byte)) (vm1 vm2 : VmClass) (world : World ι) : Prop :=
  ∃ m, start resolve files indeterminate₁ indeterminate₂ args = some m
    ∧ ∃ file₁ file₂, TimeSlicing.EndsFrom (World.Delivers (binary resolve m.machine₁))
      (World.Delivers (binary resolve m.machine₂)) quantum (executeLine resolve opens) m
      { file₁, machine₁ := vm1, file₂, machine₂ := vm2, world }

end Program

/-! ## Effects -/

/-- What a line does to the world. -/
inductive Effect (ι : Type) where
  | print (text : List Byte)
  | write (file : ι) (text : List Byte)
  deriving DecidableEq

section Effects

variable {ι : Type} [DecidableEq ι] {resolve : List Byte → ι} {opens : List Byte → Bool}

/-- The world behind an effect. -/
def World.apply (world : World ι) : Effect ι → World ι
  | .print text => { world with cout := world.cout ++ text }
  | .write file text => world.write file text

/-- The path that a line saves its machine to. -/
def savedPath (line : List Byte) : Option (List Byte) := (line.splitOn space)[1]?

/-- A line without the world. -/
def emit (resolve : List Byte → ι) (opens : List Byte → Bool) (line : List Byte) (obj : VmClass) :
    Option (VmClass × List (Effect ι)) :=
  if line = [] then some (obj, [])
  else if opcodeOf line = dumpProcessorState then some (obj, [.print (dumpstate obj)])
  else if opcodeOf line = snapshotOp then
    (savedPath line).map fun path =>
      (obj, if opens path then [.write (resolve path) (snapshotText obj)] else [])
  else (VmmShowcase.solve line obj.toVmClass).map fun vm => ({ obj with toVmClass := vm }, [])

/-- **A line only has effects on the world**, which it does not see. -/
theorem emits (resolve : List Byte → ι) (opens : List Byte → Bool) :
    TimeSlicing.Emits (executeLine resolve opens) (emit resolve opens) World.apply := by
  intro line obj world
  rw [executeLine, emit]
  by_cases hempty : line = []
  · rw [if_pos hempty, if_pos hempty]
    rfl
  rw [if_neg hempty, if_neg hempty, solveIn, opcodeOf, VmmShowcase.solve]
  generalize getline space [] (ofText line) = read
  obtain ⟨opcode, ss⟩ := read
  by_cases hdump : opcode = dumpProcessorState
  · simp only [if_pos hdump]
    rfl
  by_cases hsnapshot : opcode = snapshotOp
  · -- a snapshot: the world is written to only if the file opens
    simp only [if_neg hdump, if_pos hsnapshot]
    rw [savedPath]
    cases (line.splitOn space)[1]? with
    | none => rfl
    | some path => cases hopens : opens path <;> simp [hopens, World.apply]
  · simp only [if_neg hdump, if_neg hsnapshot]
    cases solveOperands opcode ss obj.toVmClass <;> rfl

omit [DecidableEq ι] in
/-- A line leaves the length of a machine's slices. -/
theorem quantum_of_emit (line : List Byte) (obj obj' : VmClass) (effects : List (Effect ι))
    (h : emit resolve opens line obj = some (obj', effects)) : quantum obj' = quantum obj := by
  rw [emit] at h
  split at h
  · cases h
    rfl
  split at h
  · cases h
    rfl
  split at h
  · rw [Option.map_eq_some_iff] at h
    obtain ⟨path, -, h⟩ := h
    cases h
    rfl
  · rw [Option.map_eq_some_iff] at h
    obtain ⟨vm, -, h⟩ := h
    cases h
    rfl

/-! ## The machine of a file -/

/-- A line has a second token if it has a blank. -/
theorem isSome_savedPath (line : List Byte) : (savedPath line).isSome = line.contains space := by
  rw [savedPath, List.splitOn_eq_splitOnP]
  by_cases h : space ∈ line
  · obtain ⟨before, behind, rfl, hbefore⟩ := List.eq_append_cons_of_mem h
    have hfree : ∀ b ∈ before, (b == space) = false := fun b hb =>
      beq_eq_false_iff_ne.mpr fun heq => hbefore (heq ▸ hb)
    obtain ⟨token, tokens, htokens⟩ :=
      List.exists_cons_of_ne_nil (List.splitOnP_ne_nil (· == space) behind)
    rw [List.splitOnP_append_cons_of_forall_mem hfree space (beq_self_eq_true space), htokens,
      List.contains_iff_mem.mpr h]
    rfl
  · have hfree : ∀ b ∈ line, (b == space) = false := fun b hb =>
      beq_eq_false_iff_ne.mpr fun heq => h (heq ▸ hb)
    rw [List.splitOnP_eq_singleton hfree]
    exact (Bool.eq_false_iff.mpr fun hmem => h (List.contains_iff_mem.mp hmem)).symm

omit [DecidableEq ι] in
/-- A line does to the machine what it does on the server, which skips empty lines, too. -/
theorem emit_machine (resolve : List Byte → ι) (opens : List Byte → Bool) (line : List Byte)
    (obj : VmClass) : (emit resolve opens line obj).map (fun p => p.1.toVmClass)
      = if line = [] then some obj.toVmClass else Server.solve line obj.toVmClass := by
  rw [emit]
  by_cases hempty : line = []
  · rw [if_pos hempty, if_pos hempty]
    rfl
  rw [if_neg hempty, if_neg hempty]
  by_cases hsnapshot : opcodeOf line = snapshotOp
  · have hdump : opcodeOf line ≠ dumpProcessorState := by
      rw [hsnapshot]
      decide
    rw [if_neg hdump, if_pos hsnapshot, Option.map_map]
    have hserver : Server.solve line obj.toVmClass
        = if line.contains space then some obj.toVmClass else none :=
      (if_neg hdump).trans (if_pos hsnapshot)
    -- both index the second token unchecked, so that they need a blank
    rw [hserver, ← isSome_savedPath]
    cases savedPath line <;> rfl
  · rw [Server.solve_eq_solve hsnapshot]
    by_cases hdump : opcodeOf line = dumpProcessorState
    · have hsolve : VmmShowcase.solve line obj.toVmClass = some obj.toVmClass := if_pos hdump
      rw [if_pos hdump, hsolve]
      rfl
    · rw [if_neg hdump, if_neg hsnapshot, Option.map_map]
      exact Option.map_id'

omit [DecidableEq ι] in
/-- **A file takes its machine where it takes it on the server.** -/
theorem solo_machine (resolve : List Byte → ι) (opens : List Byte → Bool) (lines : List (List Byte))
    (obj : VmClass) : (TimeSlicing.solo (emit resolve opens) lines obj).map (fun p => p.1.toVmClass)
      = Server.execute lines obj.toVmClass := by
  induction lines generalizing obj with
  | nil => rfl
  | cons line lines ih =>
      have hrest (p : VmClass × List (Effect ι)) :
          ((TimeSlicing.solo (emit resolve opens) lines p.1).map fun q => (q.1, p.2 :: q.2)).map
            (fun q => q.1.toVmClass) = Server.execute lines p.1.toVmClass := by
        rw [Option.map_map, ← ih]
        rfl
      rw [TimeSlicing.solo_cons, Option.map_bind, Server.execute]
      have hline := emit_machine resolve opens line obj
      by_cases hempty : line = []
      · -- an empty line is skipped by both
        rw [if_pos hempty] at hline ⊢
        obtain ⟨p, hp, hmachine⟩ := Option.map_eq_some_iff.mp hline
        rw [hp, Option.bind_some, Function.comp_apply, hrest, hmachine]
      · rw [if_neg hempty] at hline ⊢
        rw [← hline, Option.bind_map]
        congr 1
        funext p
        exact hrest p

/-! ## The snapshots of a file -/

/-- The line saves its machine into a file. -/
def Saves (resolve : List Byte → ι) (file : ι) (line : List Byte) : Prop :=
  opcodeOf line = snapshotOp ∧ (savedPath line).map resolve = some file

instance (resolve : List Byte → ι) (file : ι) : DecidablePred (Saves resolve file) := fun _ =>
  inferInstanceAs (Decidable (_ ∧ _))

/-- What an effect leaves in a file. -/
def writtenTo (file : ι) : Effect ι → Option (List Byte)
  | .print _ => none
  | .write file' text => if file' = file then some text else none

/-- **A file holds what was written into it last**, or what it held before. -/
theorem files_foldl_apply (file : ι) (effects : List (Effect ι)) (world : World ι) :
    (effects.foldl World.apply world).files file
      = ((effects.filterMap (writtenTo file)).getLast?).or (world.files file) := by
  induction effects generalizing world with
  | nil => rfl
  | cons effect effects ih =>
      rw [List.foldl_cons, ih, List.filterMap_cons]
      cases effect with
      | print text => rfl
      | write file' text =>
          by_cases hfile : file' = file
          · simp only [writtenTo, World.apply, World.write, if_pos hfile]
            rw [hfile, Table.insert_self, List.getLast?_cons]
            cases (effects.filterMap (writtenTo file)).getLast? <;> rfl
          · simp only [writtenTo, World.apply, World.write, if_neg hfile]
            rw [Table.insert_of_ne _ _ fun heq => hfile heq.symm]

/-- A file that nothing is written into is not among those that were written to. -/
theorem notMem_written_foldl_apply {file : ι} {effects : List (Effect ι)}
    (h : effects.filterMap (writtenTo file) = []) {world : World ι} (hworld : file ∉ world.written) :
    file ∉ (effects.foldl World.apply world).written := by
  induction effects generalizing world with
  | nil => exact hworld
  | cons effect effects ih =>
      rw [List.filterMap_cons] at h
      rw [List.foldl_cons]
      cases effect with
      | print text => exact ih h hworld
      | write file' text =>
          by_cases hfile : file' = file
          · simp only [writtenTo, if_pos hfile] at h
            cases h
          · simp only [writtenTo, if_neg hfile] at h
            refine ih h fun hmem => ?_
            rcases List.mem_append.mp hmem with hmem | hmem
            · exact hworld hmem
            · exact hfile (List.mem_singleton.mp hmem).symm

/-- A line that does not save its machine into a file leaves the file. -/
theorem filterMap_of_emit {file : ι} {line : List Byte} (h : ¬ Saves resolve file line)
    {obj obj' : VmClass} {effects : List (Effect ι)}
    (hemit : emit resolve opens line obj = some (obj', effects)) :
    effects.filterMap (writtenTo file) = [] := by
  rw [emit] at hemit
  split at hemit
  · cases hemit
    rfl
  split at hemit
  · cases hemit
    rfl
  split at hemit
  · -- a snapshot, but into another file
    rename_i hsnapshot
    obtain ⟨path, hpath, heffects⟩ := Option.map_eq_some_iff.mp hemit
    have hne : resolve path ≠ file := fun heq => h ⟨hsnapshot, by rw [hpath, Option.map_some, heq]⟩
    cases heffects
    cases opens path with
    | false => rfl
    | true => simp [writtenTo, hne]
  · obtain ⟨vm, -, heffects⟩ := Option.map_eq_some_iff.mp hemit
    cases heffects
    rfl

/-- So do lines that do not save it there. -/
theorem filterMap_of_solo {file : ι} {lines : List (List Byte)}
    (h : ∀ line ∈ lines, ¬ Saves resolve file line) {obj obj' : VmClass}
    {trace : List (List (Effect ι))}
    (hsolo : TimeSlicing.solo (emit resolve opens) lines obj = some (obj', trace)) :
    ∀ effects ∈ trace, effects.filterMap (writtenTo file) = [] := by
  induction lines generalizing obj obj' trace with
  | nil =>
      cases hsolo
      exact fun effects heffects => absurd heffects List.not_mem_nil
  | cons line lines ih =>
      rw [TimeSlicing.solo_cons, Option.bind_eq_some_iff] at hsolo
      obtain ⟨p, hp, hsolo⟩ := hsolo
      obtain ⟨q, hq, hsolo⟩ := Option.map_eq_some_iff.mp hsolo
      cases hsolo
      intro effects heffects
      rcases List.mem_cons.mp heffects with rfl | heffects
      · exact filterMap_of_emit (h line (List.mem_cons_self ..)) hp
      · exact ih (fun l hl => h l (List.mem_cons_of_mem _ hl)) hq effects heffects

/-- So nothing is written there at all. -/
theorem filterMap_flatten_of_solo {file : ι} {lines : List (List Byte)}
    (h : ∀ line ∈ lines, ¬ Saves resolve file line) {obj obj' : VmClass}
    {trace : List (List (Effect ι))}
    (hsolo : TimeSlicing.solo (emit resolve opens) lines obj = some (obj', trace)) :
    trace.flatten.filterMap (writtenTo file) = [] := by
  rw [List.filterMap_flatten, List.flatten_eq_nil_iff]
  intro written hwritten
  obtain ⟨effects, heffects, rfl⟩ := List.mem_map.mp hwritten
  exact filterMap_of_solo h hsolo effects heffects

/-! ## Files that are not written to -/

omit [DecidableEq ι] in
/-- A stream delivers what it did while its file is not written to. -/
theorem quietlyDelivers (file : ι) {quiet : World ι → Prop}
    (hquiet : ∀ world, quiet world → file ∉ world.written) :
    TimeSlicing.QuietlyDelivers (World.Delivers file) quiet := by
  intro world hworld stream stream'
  constructor
  · exact fun h => h.2.2 (hquiet world hworld)
  · rintro rfl
    exact ⟨rfl, rfl, fun _ => rfl⟩

/-- A file that no line saves a machine into is not written to. -/
theorem keepsQuiet (files : List ι) :
    TimeSlicing.KeepsQuiet (executeLine resolve opens)
      (fun world => ∀ file ∈ files, file ∉ world.written)
      fun line => ∀ file ∈ files, ¬ Saves resolve file line := by
  intro line obj world obj' world' hline hworld hstep file hfile
  rw [emits resolve opens] at hstep
  obtain ⟨⟨vm, effects⟩, hemit, h⟩ := Option.map_eq_some_iff.mp hstep
  cases h
  exact notMem_written_foldl_apply (filterMap_of_emit (hline file hfile) hemit) (hworld file hfile)

end Effects

end Homework1

end VmmShowcase
