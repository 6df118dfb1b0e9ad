import VmmShowcase.Legacy.CheckpointedRun

/-! # One legacy process behind another

What a process of `src/homework1.cc` leaves in the files is loaded by the next one. If a machine is saved
in the middle of its instructions, the next process can finish them from there, whatever the machine
shares its process with. -/

namespace VmmShowcase

open Text TextStream CommandLine

namespace Homework1

/-! ## The program counter -/

/-- No line counts. -/
theorem pc_of_execute {lines : List (List Byte)} {obj obj' : VmmShowcase.VmClass}
    (h : Server.execute lines obj = some obj') : obj'.pc = obj.pc := by
  have hsame : SameRegisters obj.pc obj.pc obj obj := ⟨rfl, rfl, rfl⟩
  have hrel := Server.preserves_execute lines hsame
  rw [h] at hrel
  cases hrel with
  | some hrel => exact hrel.pc_left

/-- The machines of the program start without a count. -/
theorem pc_of_machine {files : Table (List Byte) (List Byte)} {indeterminate : Word}
    {name snapshot_name file : List Byte} {vm : VmClass}
    (h : machine files indeterminate name snapshot_name file = some vm) : vm.pc = 0 := by
  obtain ⟨saved, config, -, -, rfl⟩ := machine_cases h
  rfl

/-! ## What a process leaves -/

section Processes

variable {ι : Type} [DecidableEq ι] {resolve : List Byte → ι} {opens : List Byte → Bool}
  {files : Table ι (List Byte)} {indeterminate₁ indeterminate₂ : Word} {args : List (List Byte)}
  {vm1 vm2 : VmClass} {world : World ι} {path line : List Byte}
  {before after lines₁ lines₂ : List (List Byte)}

omit [DecidableEq ι] in
/-- A line that saves a machine writes its snapshot. -/
theorem emit_of_savedPath (hop : opcodeOf line = snapshotOp) (hpath : savedPath line = some path)
    (hopens : opens path = true) (obj : VmClass) :
    emit resolve opens line obj = some (obj, [.write (resolve path) (snapshotText obj)]) := by
  have hempty : line ≠ [] := by
    rintro rfl
    exact absurd hop (by decide)
  have hdump : opcodeOf line ≠ dumpProcessorState := by
    rw [hop]
    decide
  rw [emit, if_neg hempty, if_neg hdump, if_pos hop, hpath, Option.map_some, if_pos hopens]

/-- **A process leaves the files** that no line of its programs saves a machine into. -/
theorem Returns.files_eq (hspares : SparesPrograms resolve files args)
    (hrun : Returns resolve opens files indeterminate₁ indeterminate₂ args vm1 vm2 world)
    (hprogram₁ : program (byPath resolve files) args 0 = some lines₁)
    (hprogram₂ : program (byPath resolve files) args 1 = some lines₂) {file : ι}
    (h : ∀ l ∈ lines₁ ++ lines₂, ¬ Saves resolve file l) : world.files file = files file := by
  obtain ⟨trace₁, trace₂, h₁, h₂, hslice, rfl⟩ := hrun.executes hspares
  obtain ⟨snapshot₁, file₁, vm₁, -, hfile₁, hvm₁, -, text₁, htext₁, hsolo₁⟩ := h₁
  obtain ⟨snapshot₂, file₂, vm₂, -, hfile₂, hvm₂, -, text₂, htext₂, hsolo₂⟩ := h₂
  rw [linesLeft_of_program hprogram₁ hfile₁ hvm₁ htext₁] at hsolo₁
  rw [linesLeft_of_program hprogram₂ hfile₂ hvm₂ htext₂] at hsolo₂
  have hfirst := filterMap_flatten_of_solo (fun l hl => h l (List.mem_append_left _ hl)) hsolo₁
  have hsecond := filterMap_of_solo (fun l hl => h l (List.mem_append_right _ hl)) hsolo₂
  rw [files_foldl_apply, TimeSlicing.filterMap_flatten_turns hslice _ hsecond, hfirst]
  rfl

/-- **The machine that a process leaves in a file**: where its own lines save it there for the last time,
and no line of the other machine does. -/
theorem Returns.saved (hspares : SparesPrograms resolve files args)
    (hrun : Returns resolve opens files indeterminate₁ indeterminate₂ args vm1 vm2 world)
    (hprogram₁ : program (byPath resolve files) args 0 = some (before ++ line :: after))
    (hprogram₂ : program (byPath resolve files) args 1 = some lines₂)
    (hop : opcodeOf line = snapshotOp) (hpath : savedPath line = some path)
    (hopens : opens path = true)
    (hlast : ∀ l ∈ after ++ lines₂, ¬ Saves resolve (resolve path) l) :
    ∃ vm : VmClass, world.files (resolve path) = some (snapshotText vm) ∧ vm.pc = 0
      ∧ Server.execute after vm.toVmClass = some vm1.toVmClass := by
  obtain ⟨trace₁, trace₂, h₁, h₂, hslice, rfl⟩ := hrun.executes hspares
  obtain ⟨snapshot₁, file₁, vm₁, -, hfile₁, hvm₁, -, text₁, htext₁, hsolo₁⟩ := h₁
  obtain ⟨snapshot₂, file₂, vm₂, -, hfile₂, hvm₂, -, text₂, htext₂, hsolo₂⟩ := h₂
  rw [linesLeft_of_program hprogram₁ hfile₁ hvm₁ htext₁, TimeSlicing.solo_append,
    Option.bind_eq_some_iff] at hsolo₁
  rw [linesLeft_of_program hprogram₂ hfile₂ hvm₂ htext₂] at hsolo₂
  obtain ⟨⟨vm, start⟩, hbefore, hsolo₁⟩ := hsolo₁
  rw [TimeSlicing.solo_cons, emit_of_savedPath hop hpath hopens, Option.bind_some,
    Option.map_map] at hsolo₁
  obtain ⟨⟨vm', rest⟩, hafter, htrace⟩ := Option.map_eq_some_iff.mp hsolo₁
  rw [Function.comp_apply, Prod.mk.injEq] at htrace
  obtain ⟨rfl, rfl⟩ := htrace
  -- neither the lines behind nor the other machine write into the file
  have hrest := filterMap_flatten_of_solo (fun l hl => hlast l (List.mem_append_left _ hl)) hafter
  have hother := filterMap_of_solo (fun l hl => hlast l (List.mem_append_right _ hl)) hsolo₂
  refine ⟨vm, ?_, ?_, ?_⟩
  · rw [files_foldl_apply, TimeSlicing.filterMap_flatten_turns hslice _ hother, List.flatten_append,
      List.flatten_cons, List.filterMap_append, List.filterMap_append, hrest, List.append_nil]
    simp [writtenTo]
  · have hmachine := solo_machine resolve opens before vm₁
    rw [hbefore] at hmachine
    rw [pc_of_execute hmachine.symm, pc_of_machine hvm₁]
  · have hmachine := solo_machine resolve opens after vm
    rw [hafter] at hmachine
    exact hmachine.symm

/-! ## What the next process takes over -/

/-- A machine made from a file that `vm` was saved into is where `vm` was. -/
theorem toVmClass_of_machine {files : Table (List Byte) (List Byte)} {vm vm' : VmClass}
    (hpath : path ≠ noSnapshot) (hsaved : files path = some (snapshotText vm)) (hpc : vm.pc = 0)
    {indeterminate : Word} {name file : List Byte}
    (h : machine files indeterminate name path file = some vm') : vm'.toVmClass = vm.toVmClass := by
  obtain ⟨saved, config, hload, -, rfl⟩ := machine_cases h
  rw [loadNamed, if_neg hpath, loadSnapshot, hsaved] at hload
  cases (foldlM_snapshotText vm _).symm.trans hload
  show { vm.toVmClass with pc := 0 } = vm.toVmClass
  rw [← hpc]

variable {opens' : List Byte → Bool} {indeterminate₁' indeterminate₂' : Word}
  {args' : List (List Byte)} {path' : List Byte}

/-- **A process finishes what the process before it saved.** The first machine of a process is saved into a
file in the middle of its instructions, and not again behind them or by the second machine, whatever the
paths. A later process, in the files that are left, loads the file for its first machine and gives it the
rest of the instructions. Wherever that process returns, the machine ends as the one before did, and it
returns if its slices are not empty and its second machine can be executed. Neither process saves a
machine over an instruction file that it executes. -/
theorem restart_finishes (hspares : SparesPrograms resolve files args)
    (hrun : Returns resolve opens files indeterminate₁ indeterminate₂ args vm1 vm2 world)
    (hprogram₁ : program (byPath resolve files) args 0 = some (before ++ line :: after))
    (hprogram₂ : program (byPath resolve files) args 1 = some lines₂)
    (hop : opcodeOf line = snapshotOp) (hpath : savedPath line = some path)
    (hopens : opens path = true) (hlast : ∀ l ∈ after ++ lines₂, ¬ Saves resolve (resolve path) l)
    (hnamed : path' ≠ noSnapshot) (hsame : resolve path' = resolve path)
    (hspares' : SparesPrograms resolve world.files args')
    (hsnapshot : (options args').snapshot_Files[0]? = some path')
    (hprogram : program (byPath resolve world.files) args' 0 = some after) :
    (∀ vm1' vm2' world', Returns resolve opens' world.files indeterminate₁' indeterminate₂' args'
      vm1' vm2' world' → vm1'.toVmClass = vm1.toVmClass)
    ∧ ∀ m, start resolve world.files indeterminate₁' indeterminate₂' args' = some m →
      0 < quantum m.machine₁ →
      (∃ vm2' trace, TimeSlicing.Executes quantum (emit resolve opens')
        (byPath resolve world.files (inputFiles ++ m.machine₂.vm_binary)) m.machine₂ vm2' trace) →
      ∃ vm1' vm2' world', Returns resolve opens' world.files indeterminate₁' indeterminate₂' args'
        vm1' vm2' world' := by
  obtain ⟨vm, hsaved, hpc, hafter⟩ := hrun.saved hspares hprogram₁ hprogram₂ hop hpath hopens hlast
  have hfound : byPath resolve world.files path' = some (snapshotText vm) := by
    rw [byPath, hsame, hsaved]
  have hloaded {file : List Byte} {vm₀ : VmClass} (h : machine (byPath resolve world.files)
      indeterminate₁' firstName path' file = some vm₀) :
      (TimeSlicing.solo (emit resolve opens') after vm₀).map (fun p => p.1.toVmClass)
        = some vm1.toVmClass := by
    rw [solo_machine, toVmClass_of_machine hnamed hfound hpc h, hafter]
  constructor
  · intro vm1' vm2' world' hrun'
    obtain ⟨trace₁, -, ⟨snapshot₁, file₁, vm₁, hsnapshot₁, hfile₁, hvm₁, -, text₁, htext₁, hsolo₁⟩,
      -⟩ := hrun'.executes hspares'
    rw [hsnapshot, Option.some.injEq] at hsnapshot₁
    subst hsnapshot₁
    have hmachine := hloaded hvm₁
    rw [linesLeft_of_program hprogram hfile₁ hvm₁ htext₁] at hsolo₁
    rw [hsolo₁, Option.map_some, Option.some.injEq] at hmachine
    exact hmachine
  · rintro m hstart hslice ⟨vm2', trace₂, h₂⟩
    obtain ⟨snapshot₁, file₁, vm₁, hsnapshot₁, hfile₁, hvm₁, snapshot₂, file₂, vm₂, hsnapshot₂, hfile₂,
      hvm₂, rfl⟩ := start_eq_some_iff.mp hstart
    rw [hsnapshot, Option.some.injEq] at hsnapshot₁
    subst hsnapshot₁
    obtain ⟨⟨vm1', trace₁⟩, hsolo, -⟩ := Option.map_eq_some_iff.mp (hloaded hvm₁)
    obtain ⟨text₁, htext₁, hlines⟩ := exists_text_of_program hprogram hfile₁ hvm₁
    rw [← hlines] at hsolo
    exact ⟨vm1', vm2', _, returns_of_executes hspares'
      ⟨path', file₁, vm₁, hsnapshot, hfile₁, hvm₁, hslice, text₁, htext₁, hsolo⟩
      ⟨snapshot₂, file₂, vm₂, hsnapshot₂, hfile₂, hvm₂, h₂⟩⟩

end Processes

/-! ## Two processes -/

/-- `-v c -s s -v b`. -/
def nextArgs : List (List Byte) :=
  [bytes ['-', 'v'], bytes ['c'], bytes ['-', 's'], bytes ['s'], bytes ['-', 'v'], bytes ['b']]

/-- The first process returns. -/
theorem exists_returns_firstArgs :
    ∃ vm1 vm2 world, Returns id (fun _ => true) directory 0 0 firstArgs vm1 vm2 world := by
  obtain ⟨⟨vm1, trace₁, h₁⟩, vm2, trace₂, h₂⟩ := exists_executes_firstArgs
  exact ⟨vm1, vm2, _, returns_of_executes sparesPrograms_firstArgs h₁ h₂⟩

/-- The machine that is saved before its last line ends in the next process as it did in the first. -/
theorem restart_finishes_nextArgs : ∃ vm1 vm2 world vm1' vm2' world',
    Returns id (fun _ => true) directory 0 0 firstArgs vm1 vm2 world
      ∧ Returns id (fun _ => true) world.files 0 0 nextArgs vm1' vm2' world'
      ∧ vm1'.toVmClass = vm1.toVmClass := by
  obtain ⟨vm1, vm2, world, hrun⟩ := exists_returns_firstArgs
  have hprogram₁ : program directory firstArgs 0 = some ([] ++ saveLine :: [loadFive]) :=
    program_firstArgs.1
  have hprogram₂ : program directory firstArgs 1 = some [] := program_firstArgs.2
  have hsavedPath : savedPath saveLine = some (bytes ['s']) := by decide
  have hfiles (path : List Byte) (hpath : path ≠ bytes ['s']) :
      world.files path = directory path := by
    refine hrun.files_eq sparesPrograms_firstArgs hprogram₁ hprogram₂ fun l hl hl' => ?_
    rcases List.mem_pair.mp hl with rfl | rfl
    · have hsaves := hl'.2
      rw [hsavedPath] at hsaves
      exact hpath (Option.some.inj hsaves).symm
    · exact absurd hl'.1 (by decide)
  obtain ⟨vm, hfile, -⟩ :=
    hrun.saved sparesPrograms_firstArgs hprogram₁ hprogram₂ (by decide) hsavedPath rfl (by decide)
  have hsaved : world.files (bytes ['s']) = some (snapshotText vm) := hfile
  -- the next process makes its machines from the files that are left
  have hconfig₁ : world.files (inputFiles ++ bytes ['c']) = some (configText (bytes ['r'])) := by
    rw [hfiles _ (by decide)]
    decide
  have hconfig₂ : world.files (inputFiles ++ bytes ['b']) = some (configText (bytes ['q'])) := by
    rw [hfiles _ (by decide)]
    decide
  have htext₁ : world.files (inputFiles ++ bytes ['r']) = some (fileText [loadFive]) := by
    rw [hfiles _ (by decide)]
    decide
  have htext₂ : world.files (inputFiles ++ bytes ['q']) = some (fileText []) := by
    rw [hfiles _ (by decide)]
    decide
  have hloaded (obj : VmClass) : loadNamed world.files (bytes ['s']) obj
      = some { obj with registers := vm.registers, hi := vm.hi, low := vm.low } := by
    rw [loadNamed, if_neg (by decide), loadSnapshot, hsaved]
    exact foldlM_snapshotText vm obj
  have hread₁ (config : Configuration) :
      Configuration.read (openFile (world.files (inputFiles ++ bytes ['c']))) config
        = some ⟨1, bytes ['r']⟩ := by
    rw [hconfig₁, read_configText (by decide)]
  have hread₂ (config : Configuration) :
      Configuration.read (openFile (world.files (inputFiles ++ bytes ['b']))) config
        = some ⟨1, bytes ['q']⟩ := by
    rw [hconfig₂, read_configText (by decide)]
  have hslice : 0 < (1 : Word).toInt.toNat := by decide
  have hempty : (ofText (fileText [])).linesLeft = [] := linesLeft_ofText_nil
  have hsnapshot : (options nextArgs).snapshot_Files[0]? = some (bytes ['s']) := by decide
  have hprogram : program world.files nextArgs 0 = some [loadFive] :=
    program_of_configText (bytes ['c']) (bytes ['r']) (by decide) hconfig₁ (by decide) htext₁
      (by decide)
  have hprogram' : program world.files nextArgs 1 = some [] :=
    program_of_configText (bytes ['b']) (bytes ['q']) (by decide) hconfig₂ (by decide) htext₂
      (by decide)
  have hspares : SparesPrograms id world.files nextArgs :=
    sparesPrograms_of_outside hprogram hprogram' (by decide)
  obtain ⟨hsame, hreturns⟩ : (∀ vm1' vm2' world', Returns id (fun _ => true) world.files 0 0 nextArgs
      vm1' vm2' world' → _) ∧ _ :=
    restart_finishes sparesPrograms_firstArgs hrun hprogram₁ hprogram₂ (by decide) hsavedPath rfl
      (by decide) (by decide) rfl hspares hsnapshot hprogram
  obtain ⟨vm1', vm2', world', hrun'⟩ := hreturns _ (start_eq_some_iff.mpr
    ⟨bytes ['s'], bytes ['c'], _, hsnapshot, by decide, exists_machine (hloaded _) (hread₁ _),
      noSnapshot, bytes ['b'], _, by decide, by decide, exists_machine rfl (hread₂ _), rfl⟩) hslice
    ⟨_, _, hslice, fileText [], htext₂, by rw [hempty]; rfl⟩
  exact ⟨vm1, vm2, world, vm1', vm2', world', hrun, hrun', hsame vm1' vm2' world' hrun'⟩

end Homework1

end VmmShowcase
