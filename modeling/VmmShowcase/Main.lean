import VmmShowcase.Cpu.ParseProgram
import VmmShowcase.Hypervisor.Output
import VmmShowcase.Hypervisor.RetiredCounts

/-! # The showcase program

`src/main.cpp`: two machines run the same program under the scheduler that the command line names, with
a transport that accepts everything. The dumps come first, in the order of the dispatches; behind them
stands what each machine has retired, in the order of an unordered map. What is written is told by what
each machine does alone. -/

namespace VmmShowcase

namespace Main

open HypervisorCore (linesOf newCore printingBody)
open Text
open VirtualMachine (create)

/-- `LocalTransport`. -/
def localTransport : Transport Unit where
  handshake := fun _ _ _ => (true, ())
  sendPacket := fun _ _ => (true, ())

/-- `BuildScheduler`. -/
def buildScheduler (name : CString) : Scheduler :=
  if name = bytes ['p', 'r', 'i', 'o', 'r', 'i', 't', 'y'] then .priority
  else if name = bytes ['m', 'l', 'f', 'q'] then .mlfq {}
  else .roundRobin {}

/-- The line about the scheduler. -/
def schedulerLine (schedulerName : CString) : CString :=
  bytes ['S', 'c', 'h', 'e', 'd', 'u', 'l', 'e', 'r', ':', ' '] ++ schedulerName ++ [TextStream.newline]

/-- The line about an entry of `instructionsByVm`. -/
def countLine (entry : CString × Nat) : CString :=
  entry.1 ++ bytes [' ', 'r', 'e', 't', 'i', 'r', 'e', 'd', ' ', 'i', 'n', 's', 't', 'r', 'u', 'c', 't',
    'i', 'o', 'n', 's', ':', ' '] ++ decimal entry.2 ++ [TextStream.newline]

/-- `main` from the construction of the hypervisor on: it returns, and has written `cout`. -/
def Reports (schedulerName : CString) (machines : List (VmConfig × Program)) (cout : CString) : Prop :=
  ∃ core out entries, Loop.Terminates (printingBody localTransport)
      (newCore machines (buildScheduler schedulerName) (), []) (core, out)
    ∧ Table.Enumerates entries core.metrics.stats.instructionsByVm
    ∧ cout = out.flatMap Prod.snd ++ schedulerLine schedulerName ++ entries.flatMap countLine

/-- `demoProgram`. -/
def demoProgram : List CString :=
  [bytes ['l', 'i', ' ', '$', '1', ',', ' ', '4', '2'],
    bytes ['s', 'w', ' ', '$', '1', ',', ' ', '0'], bytes ['l', 'w', ' ', '$', '2', ',', ' ', '0'],
    bytes ['D', 'U', 'M', 'P', '_', 'P', 'R', 'O', 'C', 'E', 'S', 'S', 'O', 'R', '_', 'S', 'T', 'A',
      'T', 'E'],
    bytes ['H', 'A', 'L', 'T']]

/-- `vmA`. -/
def vmA : VmConfig where
  name := bytes ['v', 'm', 'A']
  execSlice := 3
  priority := 2

/-- `vmB`. -/
def vmB : VmConfig where
  name := bytes ['v', 'm', 'B']
  execSlice := 2
  priority := 1

/-- `schedulerName`, from the arguments behind the program's name. -/
def schedulerName (args : List CString) : CString :=
  args.head?.getD (bytes ['r', 'o', 'u', 'n', 'd', '_', 'r', 'o', 'b', 'i', 'n'])

/-- `main` returns, and has written `cout`. -/
def Returns (args : List CString) (cout : CString) : Prop :=
  ∃ program : Program, parseProgram demoProgram = some program.insts
    ∧ Reports (schedulerName args) [(vmA, program), (vmB, program)] cout

/-- **The report tells what the machines do alone.** For machines with distinct names, programs without
`MIGRATE` whose register operands are in range, nonempty slices and priorities that the scheduler can see,
`main` returns; and whatever the scheduler and the order of the map, its output is the lines that the
machines write alone, interleaved, and behind them, for each machine, what it retires alone. Signed
arithmetic wraps, the least number divided by -1 too. -/
theorem reports_alone (schedulerName : CString) {machines : List (VmConfig × Program)}
    (hnames : (machines.map fun p => p.1.name).Nodup) (hregs : ∀ p ∈ machines, p.2.RegistersInRange)
    (hfree : ∀ p ∈ machines, p.2.MigrateFree) (hslice : ∀ p ∈ machines, 1 ≤ p.1.execSlice)
    (habove : buildScheduler schedulerName = .priority → ∀ p ∈ machines, -1000000 < p.1.priority) :
    (∃ cout, Reports schedulerName machines cout)
      ∧ ∀ cout, Reports schedulerName machines cout →
        ∃ (out : List (Nat × CString)) (counts : List (CString × Nat)),
          (∀ line ∈ out, line.1 < machines.length)
          ∧ (∀ (i : Nat) (p : VmConfig × Program), machines[i]? = some p →
            linesOf i out = (create p.1 p.2).printsAlone)
          ∧ counts.Perm (machines.map fun p => (p.1.name, (create p.1 p.2).retiredAlone))
          ∧ cout = out.flatMap Prod.snd ++ schedulerLine schedulerName ++ counts.flatMap countLine := by
  constructor
  · obtain ⟨core, hrun⟩ := HypervisorCore.exists_run_newCore hfree hregs hslice habove () localTransport
    obtain ⟨out, hterminates⟩ := Loop.terminates_recording_iff.mpr hrun
    have hcounts := HypervisorCore.instructionsByVm_eq_some_iff hnames hregs hfree hslice habove hrun
    refine ⟨_, core, out, machines.map fun p => (p.1.name, (create p.1 p.2).retiredAlone), hterminates,
      ⟨?_, fun name n => (hcounts name n).symm⟩, rfl⟩
    rw [List.map_map]
    exact hnames
  · rintro cout ⟨core, out, entries, hterminates, hentries, rfl⟩
    have hrun : HypervisorCore.Run localTransport (newCore machines (buildScheduler schedulerName) ())
        core := Loop.terminates_recording_iff.mp ⟨out, hterminates⟩
    have hcounts := HypervisorCore.instructionsByVm_eq_some_iff hnames hregs hfree hslice habove hrun
    obtain ⟨hmachine, hlines⟩ := HypervisorCore.lines_of_terminates hterminates
    refine ⟨out, entries, hmachine, hlines, hentries.perm ⟨?_, fun name n => (hcounts name n).symm⟩, rfl⟩
    rw [List.map_map]
    exact hnames

/-- The instructions of `demoProgram`. -/
def demoInstructions : Program where
  insts := [{ opcode := .li, rd := 1, imm := 42 }, { opcode := .sw, rs := 1 },
    { opcode := .lw, rd := 2 }, { opcode := .dumpProcessorState }, { opcode := .halt }]
  size_lt := by decide

/-- The showcase program returns under the MLFQ scheduler. -/
theorem reports_alone_demo : ∃ cout, Returns [bytes ['m', 'l', 'f', 'q']] cout := by
  have hreturns : ∃ cout, Reports (bytes ['m', 'l', 'f', 'q'])
      [(vmA, demoInstructions), (vmB, demoInstructions)] cout :=
    (reports_alone (bytes ['m', 'l', 'f', 'q']) (by decide) (by decide) (by decide) (by decide)
      (by decide)).1
  obtain ⟨cout, hreports⟩ := hreturns
  exact ⟨cout, demoInstructions, by decide, hreports⟩

end Main

end VmmShowcase
