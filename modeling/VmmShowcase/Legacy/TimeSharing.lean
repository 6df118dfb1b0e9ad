import VmmShowcase.Legacy.Configuration

/-! # The first legacy program

`main` of `src/project.cc`: two machines, each with a configuration file and the instruction file that this
names. The program executes the files slice by slice in turn, until both streams are at their end; a
stream whose file is missing never is. The files are what the directory holds when they are opened. -/

namespace VmmShowcase

open Text TextStream

namespace Project

/-- `VmClass`, with the members that the configuration assigns. -/
structure VmClass extends VmmShowcase.VmClass, Configuration where
  deriving DecidableEq

/-- What `dumpstate` prints. -/
def dumpstate (obj : VmmShowcase.VmClass) : List Byte :=
  (List.finRange 32).flatMap (fun i => obj.registerLine i ++ [newline])
    ++ ((obj.hiLine ++ [newline]) ++ (obj.lowLine ++ [newline]) ++ [newline])

/-- `solve`, with what is printed. -/
def solve (instructionsfileline : List Byte) (obj : VmClass) (cout : List Byte) :
    Option (VmClass × List Byte) :=
  let (opcode, ss) := getline space [] (ofText instructionsfileline)
  if opcode = dumpProcessorState then some (obj, cout ++ dumpstate obj.toVmClass)
  else (solveOperands opcode ss obj.toVmClass).map fun vm => ({ obj with toVmClass := vm }, cout)

/-- `-v`. -/
def fileOption : List Byte := bytes ['-', 'v']

/-- The loop over the arguments behind the program's name. The argument behind a `-v` is a file, and is
looked at again; behind the last argument there is a null pointer, of which no string is made. -/
def assemblyFiles : (args : List (List Byte)) → Option (List (List Byte))
  | [] => some []
  | arg :: args =>
      if arg = fileOption then do
        let file ← args.head?
        return file :: (← assemblyFiles args)
      else assemblyFiles args

/-- `input_files/`. -/
def inputFiles : List Byte := bytes ['i', 'n', 'p', 'u', 't', '_', 'f', 'i', 'l', 'e', 's', '/']

/-- A machine as its configuration file makes it, with the slice that its memory happens to hold. -/
def machine (files : Table (List Byte) (List Byte)) (indeterminate : Word) (name : List Byte) :
    Option VmClass :=
  (Configuration.read (openFile (files (inputFiles ++ name)))
    { vm_exec_slice_in_instructions := indeterminate, vm_binary := [] }).map fun config =>
      { toConfiguration := config }

/-- The stream of a machine's instruction file. -/
def instructionsFile (files : Table (List Byte) (List Byte)) (vm : VmClass) : TextStream :=
  openFile (files (inputFiles ++ vm.vm_binary))

/-- The length of a machine's slices. -/
def quantum (vm : VmClass) : Nat := vm.vm_exec_slice_in_instructions.toInt.toNat

/-- `main` up to its loop. -/
def start (files : Table (List Byte) (List Byte)) (indeterminate₁ indeterminate₂ : Word)
    (args : List (List Byte)) : Option (TimeSlicing.State VmClass (List Byte)) := do
  let assembly_Files ← assemblyFiles args
  let vm1 ← machine files indeterminate₁ (← assembly_Files[0]?)
  let vm2 ← machine files indeterminate₂ (← assembly_Files[1]?)
  return {
    file₁ := instructionsFile files vm1
    machine₁ := vm1
    file₂ := instructionsFile files vm2
    machine₂ := vm2
    world := [] }

/-- `main` returns, with the given machines, and has printed `cout`. -/
def Returns (files : Table (List Byte) (List Byte)) (indeterminate₁ indeterminate₂ : Word)
    (args : List (List Byte)) (vm1 vm2 : VmClass) (cout : List Byte) : Prop :=
  ∃ m, start files indeterminate₁ indeterminate₂ args = some m
    ∧ TimeSlicing.Ends quantum solve m vm1 vm2 cout

/-! ## The machines alone -/

/-- `solve` with nothing printed before. -/
def emit (line : List Byte) (obj : VmClass) : Option (VmClass × List Byte) := solve line obj []

/-- Print another character. -/
def print (cout : List Byte) (c : Byte) : List Byte := cout ++ [c]

/-- Printing the characters of a text prints the text. -/
theorem foldl_print (cout text : List Byte) : text.foldl print cout = cout ++ text := by
  induction text generalizing cout with
  | nil => rw [List.foldl_nil, List.append_nil]
  | cons c text ih => rw [List.foldl_cons, ih, print, List.append_assoc, List.singleton_append]

/-- What a line prints. -/
def printed (line : List Byte) (obj : VmClass) : List Byte :=
  if opcodeOf line = dumpProcessorState then dumpstate obj.toVmClass else []

/-- **`solve`** executes a line as the machine does that prints nothing. -/
theorem solve_eq (line : List Byte) (obj : VmClass) (cout : List Byte) : solve line obj cout
    = (VmmShowcase.solve line obj.toVmClass).map fun vm =>
      ({ obj with toVmClass := vm }, cout ++ printed line obj) := by
  rw [solve, VmmShowcase.solve, printed, opcodeOf]
  generalize getline space [] (ofText line) = read
  obtain ⟨opcode, ss⟩ := read
  by_cases h : opcode = dumpProcessorState
  · simp only [if_pos h, Option.map_some]
  · simp only [if_neg h, List.append_nil]

/-- What was printed before has no effect on `solve`. -/
theorem emits : TimeSlicing.Emits solve emit print := by
  intro line obj cout
  rw [emit, solve_eq, solve_eq, Option.map_map]
  congr 1
  funext vm
  rw [Function.comp_apply, foldl_print, List.nil_append]

/-- `solve` leaves the configuration of a machine. -/
theorem toConfiguration_of_emit {line : List Byte} {obj obj' : VmClass} {text : List Byte}
    (h : emit line obj = some (obj', text)) : obj'.toConfiguration = obj.toConfiguration := by
  rw [emit, solve_eq, Option.map_eq_some_iff] at h
  obtain ⟨vm, -, h⟩ := h
  cases h
  rfl

/-- So it leaves the length of its slices. -/
theorem quantum_of_emit (line : List Byte) (obj obj' : VmClass) (text : List Byte)
    (h : emit line obj = some (obj', text)) : quantum obj' = quantum obj := by
  rw [quantum, quantum, toConfiguration_of_emit h]

/-- What `main` has before its loop. -/
theorem start_eq_some_iff {files : Table (List Byte) (List Byte)}
    {indeterminate₁ indeterminate₂ : Word} {args : List (List Byte)}
    {m : TimeSlicing.State VmClass (List Byte)} :
    start files indeterminate₁ indeterminate₂ args = some m
      ↔ ∃ names, assemblyFiles args = some names
        ∧ ∃ name₁ vm1, names[0]? = some name₁ ∧ machine files indeterminate₁ name₁ = some vm1
          ∧ ∃ name₂ vm2, names[1]? = some name₂ ∧ machine files indeterminate₂ name₂ = some vm2
            ∧ m = ⟨instructionsFile files vm1, vm1, instructionsFile files vm2, vm2, []⟩ := by
  rw [start]
  simp only [Option.bind_eq_bind, Option.bind_eq_some_iff, Option.pure_def, Option.some.injEq]
  constructor
  · rintro ⟨names, hnames, name₁, h₁, vm1, h₂, name₂, h₃, vm2, h₄, rfl⟩
    exact ⟨names, hnames, name₁, vm1, h₁, h₂, name₂, vm2, h₃, h₄, rfl⟩
  · rintro ⟨names, hnames, name₁, vm1, h₁, h₂, name₂, vm2, h₃, h₄, rfl⟩
    exact ⟨names, hnames, name₁, h₁, vm1, h₂, name₂, h₃, vm2, h₄, rfl⟩

/-- The `k`-th machine of the program executed alone: its configuration file makes it, and its instruction
file takes it to `vm`. The trace has what each line prints. -/
def Executes (files : Table (List Byte) (List Byte)) (indeterminate : Word) (args : List (List Byte))
    (k : Nat) (vm : VmClass) (trace : List (List Byte)) : Prop :=
  ∃ names name vm₀, assemblyFiles args = some names ∧ names[k]? = some name
    ∧ machine files indeterminate name = some vm₀
    ∧ TimeSlicing.Executes quantum emit (files (inputFiles ++ vm₀.vm_binary)) vm₀ vm trace

variable {files : Table (List Byte) (List Byte)} {indeterminate₁ indeterminate₂ : Word}
  {args : List (List Byte)} {vm1 vm2 : VmClass} {cout : List Byte}

/-- A program that returns has executed each machine as it executes alone. -/
theorem Returns.executes (h : Returns files indeterminate₁ indeterminate₂ args vm1 vm2 cout) :
    ∃ trace₁ trace₂, Executes files indeterminate₁ args 0 vm1 trace₁
      ∧ Executes files indeterminate₂ args 1 vm2 trace₂
      ∧ cout = (TimeSlicing.turns (quantum vm1) (quantum vm2) trace₁ trace₂).flatten := by
  obtain ⟨m, hstart, hends⟩ := h
  obtain ⟨names, hnames, name₁, vm₁, hname₁, hvm₁, name₂, vm₂, hname₂, hvm₂, rfl⟩ :=
    start_eq_some_iff.mp hstart
  obtain ⟨trace₁, trace₂, h₁, h₂, hcout⟩ :=
    (TimeSlicing.ends_openFile_iff emits quantum_of_emit).mp hends
  rw [foldl_print, List.nil_append] at hcout
  exact ⟨trace₁, trace₂, ⟨names, name₁, vm₁, hnames, hname₁, hvm₁, h₁⟩,
    ⟨names, name₂, vm₂, hnames, hname₂, hvm₂, h₂⟩, hcout⟩

/-- A program whose machines can be executed alone returns. -/
theorem returns_of_executes {trace₁ trace₂ : List (List Byte)}
    (h₁ : Executes files indeterminate₁ args 0 vm1 trace₁)
    (h₂ : Executes files indeterminate₂ args 1 vm2 trace₂) :
    Returns files indeterminate₁ indeterminate₂ args vm1 vm2
      (TimeSlicing.turns (quantum vm1) (quantum vm2) trace₁ trace₂).flatten := by
  obtain ⟨names, name₁, vm₁, hnames, hname₁, hvm₁, h₁⟩ := h₁
  obtain ⟨names', name₂, vm₂, hnames', hname₂, hvm₂, h₂⟩ := h₂
  rw [hnames, Option.some.injEq] at hnames'
  subst hnames'
  refine ⟨_, start_eq_some_iff.mpr ⟨names, hnames, name₁, vm₁, hname₁, hvm₁, name₂, vm₂, hname₂,
    hvm₂, rfl⟩, ?_⟩
  refine (TimeSlicing.ends_openFile_iff emits quantum_of_emit).mpr ⟨trace₁, trace₂, h₁, h₂, ?_⟩
  rw [foldl_print, List.nil_append]

/-- **When the program returns, and what it does**: exactly when its first two machines can be executed
alone. Each machine ends as it does alone, whatever the other one is and however long the slices are, and
what they print alone is dealt out slice by slice. -/
theorem returns_iff : Returns files indeterminate₁ indeterminate₂ args vm1 vm2 cout
    ↔ ∃ trace₁ trace₂, Executes files indeterminate₁ args 0 vm1 trace₁
      ∧ Executes files indeterminate₂ args 1 vm2 trace₂
      ∧ cout = (TimeSlicing.turns (quantum vm1) (quantum vm2) trace₁ trace₂).flatten := by
  constructor
  · exact Returns.executes
  · rintro ⟨trace₁, trace₂, h₁, h₂, rfl⟩
    exact returns_of_executes h₁ h₂

end Project

end VmmShowcase
