import VmmShowcase.Legacy.Restart
import VmmShowcase.Legacy.SourcePrograms

/-! # The two programs agree

The first legacy program reads its two machines from files and executes them line by line, in turn. The
newer program parses the same lines and dispatches its machines under one of its schedulers. On programs
that are read as written both leave the same registers and dump the same processors. -/

namespace VmmShowcase

open Text TextStream

namespace Project

open SourceLine HypervisorCore
open VirtualMachine (RunsAsMeant create)

variable {files : Table (List Byte) (List Byte)} {indeterminate indeterminate₁ indeterminate₂ : Word}
  {args : List (List Byte)} {τ : Type}

/-- The `k`-th machine of the legacy program has slices that are not empty and a file with these lines. -/
def Loads (files : Table (List Byte) (List Byte)) (indeterminate : Word) (args : List (List Byte))
    (k : Nat) (lines : List (List Byte)) : Prop :=
  ∃ names name vm₀ text, assemblyFiles args = some names ∧ names[k]? = some name
    ∧ machine files indeterminate name = some vm₀ ∧ 0 < quantum vm₀
    ∧ files (inputFiles ++ vm₀.vm_binary) = some text ∧ (ofText text).linesLeft = lines

/-- A machine of the newer program prints dumps of the processors that a legacy machine dumps. -/
def DumpsAlike (vm : VirtualMachine) (trace : List (List Byte)) (printed : List CString) : Prop :=
  ∃ cpus, trace.flatten = dumpTexts cpus ∧ printed = vm.dumpLines cpus

/-- A program that comes to its end is executed alone. -/
theorem exists_executes {k : Nat} {lines : List SourceLine}
    (h : Loads files indeterminate args k (lines.map text)) (hended : (meaning lines {}).ended = true) :
    ∃ vm trace, Executes files indeterminate args k vm trace := by
  obtain ⟨names, name, vm₀, content, hnames, hname, hvm₀, hslice, hcontent, hlines⟩ := h
  obtain ⟨config, -, rfl⟩ := Option.map_eq_some_iff.mp hvm₀
  obtain ⟨trace, -, hsolo⟩ := solo_text lines config {}
  rw [if_pos hended, ← hlines] at hsolo
  exact ⟨_, trace, names, name, _, hnames, hname, hvm₀, hslice, content, hcontent, hsolo⟩

/-- A program that is executed alone comes to its end, and does what it means. -/
theorem Executes.meaning_eq {k : Nat} {vm : VmClass} {trace : List (List Byte)}
    (hexecutes : Executes files indeterminate args k vm trace) {lines : List SourceLine}
    (h : Loads files indeterminate args k (lines.map text)) : (meaning lines {}).ended = true
      ∧ vm.toVmClass = .ofCpu (meaning lines {}).cpu
      ∧ trace.flatten = dumpTexts (meaning lines {}).dumps := by
  obtain ⟨names, name, vm₀, content, hnames, hname, hvm₀, -, hcontent, hlines⟩ := h
  obtain ⟨names', name', vm₀', hnames', hname', hvm₀', -, content', hcontent', hsolo⟩ := hexecutes
  rw [hnames, Option.some.injEq] at hnames'
  subst hnames'
  rw [hname, Option.some.injEq] at hname'
  subst hname'
  rw [hvm₀, Option.some.injEq] at hvm₀'
  subst hvm₀'
  rw [hcontent, Option.some.injEq] at hcontent'
  subst hcontent'
  obtain ⟨config, -, rfl⟩ := Option.map_eq_some_iff.mp hvm₀
  obtain ⟨trace', htrace', hsolo'⟩ := solo_text lines config {}
  rw [← hlines] at hsolo'
  have hsame := hsolo.symm.trans hsolo'
  cases hended : (meaning lines {}).ended with
  | false =>
      rw [hended] at hsame
      cases hsame
  | true =>
      rw [hended, if_pos rfl, Option.some.injEq, Prod.mk.injEq] at hsame
      obtain ⟨rfl, rfl⟩ := hsame
      exact ⟨rfl, rfl, htrace'⟩

/-- The newer program runs its machines as they are meant. -/
theorem exists_terminates {machines : List (VmConfig × Program)}
    (hlines : ∀ p ∈ machines, ∃ lines : List SourceLine, p.2.insts = lines.map decoded)
    (hslice : ∀ p ∈ machines, 1 ≤ p.1.execSlice) {scheduler : Scheduler}
    (habove : scheduler = .priority → ∀ p ∈ machines, -1000000 < p.1.priority) (t : τ)
    (transport : Transport τ) :
    ∃ core out, Loop.Terminates (printingBody transport) (newCore machines scheduler t, []) (core, out)
      ∧ ∀ (i : Nat) (p : VmConfig × Program), machines[i]? = some p →
        ∃ vm, core.vms[i]? = some vm ∧ ∀ lines : List SourceLine,
          (∀ line ∈ lines, line.ReadAsWritten) → p.2.insts = lines.map decoded →
          RunsAsMeant lines {} vm (linesOf i out) := by
  have hinst : ∀ p ∈ machines, ∀ inst ∈ p.2.insts, ∃ line : SourceLine, line.decoded = inst := by
    intro p hp inst hinst
    obtain ⟨lines, hlines⟩ := hlines p hp
    rw [hlines] at hinst
    obtain ⟨line, -, hline⟩ := List.mem_map.mp hinst
    exact ⟨line, hline⟩
  have hregs : ∀ p ∈ machines, p.2.RegistersInRange := by
    intro p hp inst hmem
    obtain ⟨line, rfl⟩ := hinst p hp inst hmem
    exact line.registersInRange_decoded
  have hfree : ∀ p ∈ machines, p.2.MigrateFree := by
    intro p hp inst hmem
    obtain ⟨line, rfl⟩ := hinst p hp inst hmem
    exact line.opcode_decoded_ne
  obtain ⟨core, hrun⟩ := exists_run_newCore hfree hregs hslice habove t transport
  obtain ⟨out, hterminates⟩ := Loop.terminates_recording_iff.mpr hrun
  have hends := endsAs_of_run hregs hfree hslice habove hrun
  refine ⟨core, out, hterminates, fun i p hp => ?_⟩
  have hprinted := (lines_of_terminates hterminates).2 i p hp
  obtain ⟨hlt, rfl⟩ := List.getElem?_eq_some_iff.mp hp
  have hlt₁ : i < (machines.map fun p => create p.1 p.2).length := by rwa [List.length_map]
  have hlt₂ : i < core.vms.length := hends.length_eq ▸ hlt₁
  have hend := hends.get hlt₁ hlt₂
  rw [List.get_eq_getElem, List.get_eq_getElem, List.getElem_map] at hend
  refine ⟨core.vms[i], List.getElem?_eq_getElem hlt₂, fun lines hread hprogram => ?_⟩
  rw [hprinted]
  exact hend.runsAsMeant hread hprogram

/-- **The two programs agree.** On machines whose programs are read as written, the legacy program returns
exactly when both machines of the newer program halt, whichever scheduler dispatches them and however long
the slices are on both sides. Then the registers are the same, and so are the processors that are dumped.
On both sides signed arithmetic wraps, the least number divided by -1 too. -/
theorem returns_iff_halted {lines₁ lines₂ : List SourceLine}
    (hread : ∀ line ∈ lines₁ ++ lines₂, line.ReadAsWritten)
    (hloads₁ : Loads files indeterminate₁ args 0 (lines₁.map text))
    (hloads₂ : Loads files indeterminate₂ args 1 (lines₂.map text))
    {config₁ config₂ : VmConfig} {program₁ program₂ : Program}
    (hprogram₁ : parseProgram (lines₁.map text) = some program₁.insts)
    (hprogram₂ : parseProgram (lines₂.map text) = some program₂.insts)
    (hslice₁ : 1 ≤ config₁.execSlice) (hslice₂ : 1 ≤ config₂.execSlice) {scheduler : Scheduler}
    (habove : scheduler = .priority → -1000000 < config₁.priority ∧ -1000000 < config₂.priority)
    (t : τ) (transport : Transport τ) :
    ∃ core out a b, Loop.Terminates (printingBody transport)
        (newCore [(config₁, program₁), (config₂, program₂)] scheduler t, []) (core, out)
      ∧ core.vms[0]? = some a ∧ core.vms[1]? = some b
      ∧ ((∃ vm1 vm2 cout, Returns files indeterminate₁ indeterminate₂ args vm1 vm2 cout)
        ↔ a.status = .halted ∧ b.status = .halted)
      ∧ ∀ vm1 vm2 cout, Returns files indeterminate₁ indeterminate₂ args vm1 vm2 cout →
        vm1.toVmClass = .ofCpu a.cpu ∧ vm2.toVmClass = .ofCpu b.cpu
        ∧ ∃ trace₁ trace₂,
          cout = (TimeSlicing.turns (quantum vm1) (quantum vm2) trace₁ trace₂).flatten
          ∧ DumpsAlike a trace₁ (linesOf 0 out) ∧ DumpsAlike b trace₂ (linesOf 1 out) := by
  have hinsts₁ := Option.some.inj (hprogram₁.symm.trans (parseProgram_text lines₁))
  have hinsts₂ := Option.some.inj (hprogram₂.symm.trans (parseProgram_text lines₂))
  have hmachines : ∀ p ∈ [(config₁, program₁), (config₂, program₂)], 1 ≤ p.1.execSlice
      ∧ (scheduler = .priority → -1000000 < p.1.priority)
      ∧ ∃ lines : List SourceLine, p.2.insts = lines.map decoded := by
    intro p hp
    rcases List.mem_pair.mp hp with rfl | rfl
    · exact ⟨hslice₁, fun h => (habove h).1, lines₁, hinsts₁⟩
    · exact ⟨hslice₂, fun h => (habove h).2, lines₂, hinsts₂⟩
  obtain ⟨core, out, hterminates, hmeant⟩ := exists_terminates (fun p hp => (hmachines p hp).2.2)
    (fun p hp => (hmachines p hp).1) (fun h p hp => (hmachines p hp).2.1 h) t transport
  obtain ⟨a, ha, hmeant₁⟩ := hmeant 0 _ rfl
  obtain ⟨b, hb, hmeant₂⟩ := hmeant 1 _ rfl
  obtain ⟨hcpu₁, hstatus₁, hprinted₁⟩ := hmeant₁ lines₁
    (fun line h => hread line (List.mem_append_left _ h)) hinsts₁
  obtain ⟨hcpu₂, hstatus₂, hprinted₂⟩ := hmeant₂ lines₂
    (fun line h => hread line (List.mem_append_right _ h)) hinsts₂
  have hhalted {status : VmStatus} {ended : Bool} (h : status = if ended then .halted else .faulted) :
      status = .halted ↔ ended = true := by
    subst h
    cases ended <;> simp
  refine ⟨core, out, a, b, hterminates, ha, hb, ?_, ?_⟩
  · rw [hhalted hstatus₁, hhalted hstatus₂]
    constructor
    · rintro ⟨vm1, vm2, cout, hreturns⟩
      obtain ⟨trace₁, trace₂, h₁, h₂, -⟩ := hreturns.executes
      exact ⟨(h₁.meaning_eq hloads₁).1, (h₂.meaning_eq hloads₂).1⟩
    · rintro ⟨hended₁, hended₂⟩
      obtain ⟨vm1, trace₁, h₁⟩ := exists_executes hloads₁ hended₁
      obtain ⟨vm2, trace₂, h₂⟩ := exists_executes hloads₂ hended₂
      exact ⟨vm1, vm2, _, returns_of_executes h₁ h₂⟩
  · intro vm1 vm2 cout hreturns
    obtain ⟨trace₁, trace₂, h₁, h₂, hcout⟩ := hreturns.executes
    obtain ⟨-, hvm1, htrace₁⟩ := h₁.meaning_eq hloads₁
    obtain ⟨-, hvm2, htrace₂⟩ := h₂.meaning_eq hloads₂
    exact ⟨by rw [hvm1, hcpu₁], by rw [hvm2, hcpu₂], trace₁, trace₂, hcout,
      ⟨_, htrace₁, hprinted₁⟩, ⟨_, htrace₂, hprinted₂⟩⟩

/-- A machine whose configuration has slices of one line loads the lines of its file. -/
theorem loads_of_configText {k : Nat} (file binary : List Byte) {names : List (List Byte)}
    (hnames : assemblyFiles args = some names) (hfile : names[k]? = some file)
    (hconfig : files (inputFiles ++ file) = some (Homework1.configText binary))
    (hbinary : newline ∉ binary) {lines : List (List Byte)}
    (htext : files (inputFiles ++ binary) = some (Homework1.fileText lines))
    (hlines : ∀ line ∈ lines, newline ∉ line) : Loads files 0 args k lines := by
  have hmachine : machine files 0 file = some ⟨{}, 1, binary⟩ := by
    rw [machine, hconfig, Homework1.read_configText hbinary]
    rfl
  have hslice : 0 < (1 : Word).toInt.toNat := by decide
  exact ⟨names, file, _, _, hnames, hfile, hmachine, hslice, htext, linesLeft_ofText_lines hlines⟩

/-- `li $1, -5` and a dump. -/
def loadAndDump : List SourceLine :=
  [.instruction (.li VirtualMachine.registerOne (-5)) 0 1 0, .dump]

/-- A division by zero. -/
def divideAndDump : List SourceLine :=
  [.instruction (.div VirtualMachine.registerOne SharedInstruction.zeroRegister) 2 1 0, .dump]

/-- Two configurations, and their instruction files. -/
def twoPrograms : Table (List Byte) (List Byte) := fun path =>
  if path = inputFiles ++ bytes ['a'] then some (Homework1.configText (bytes ['p']))
  else if path = inputFiles ++ bytes ['b'] then some (Homework1.configText (bytes ['q']))
  else if path = inputFiles ++ bytes ['p'] then some (Homework1.fileText (loadAndDump.map text))
  else if path = inputFiles ++ bytes ['q'] then some (Homework1.fileText (divideAndDump.map text))
  else none

/-- The first program, parsed. -/
def loadAndDumpProgram : Program := ⟨loadAndDump.map decoded, Nat.le_of_ble_eq_true rfl⟩

/-- The second one. -/
def divideAndDumpProgram : Program := ⟨divideAndDump.map decoded, Nat.le_of_ble_eq_true rfl⟩

/-- The machines of the newer program. -/
def writtenMachines : List (VmConfig × Program) :=
  [({ name := [0x61], priority := 2 }, loadAndDumpProgram),
    ({ name := [0x62], execSlice := 1 }, divideAndDumpProgram)]

/-- The theorem for a machine that halts and one that faults. -/
theorem returns_iff_halted_writtenMachines : ∃ core out a b,
    Loop.Terminates (printingBody acceptingTransport) (newCore writtenMachines .priority (), []) (core, out)
      ∧ core.vms[0]? = some a ∧ core.vms[1]? = some b
      ∧ ((∃ vm1 vm2 cout, Returns twoPrograms 0 0 Homework1.firstArgs vm1 vm2 cout)
        ↔ a.status = .halted ∧ b.status = .halted) := by
  have hread : ∀ line ∈ loadAndDump ++ divideAndDump, line.ReadAsWritten := by
    intro line hline
    simp only [loadAndDump, divideAndDump, List.cons_append, List.nil_append, List.mem_cons,
      List.not_mem_nil, or_false] at hline
    rcases hline with rfl | rfl | rfl | rfl
    · exact .inl (by decide)
    · trivial
    · exact .inl (by decide)
    · trivial
  have hloads₁ : Loads twoPrograms 0 Homework1.firstArgs 0 (loadAndDump.map text) :=
    loads_of_configText (bytes ['a']) (bytes ['p']) rfl rfl (by decide) (by decide) (by decide)
      (by decide)
  have hloads₂ : Loads twoPrograms 0 Homework1.firstArgs 1 (divideAndDump.map text) :=
    loads_of_configText (bytes ['b']) (bytes ['q']) rfl rfl (by decide) (by decide) (by decide)
      (by decide)
  have hprogram₁ : parseProgram (loadAndDump.map text) = some loadAndDumpProgram.insts :=
    parseProgram_text loadAndDump
  have hprogram₂ : parseProgram (divideAndDump.map text) = some divideAndDumpProgram.insts :=
    parseProgram_text divideAndDump
  have hslice₁ : 1 ≤ ({ name := [0x61], priority := 2 } : VmConfig).execSlice := by decide
  have hslice₂ : 1 ≤ ({ name := [0x62], execSlice := 1 } : VmConfig).execSlice := by decide
  obtain ⟨core, out, a, b, hterminates, ha, hb, hiff, -⟩ := returns_iff_halted hread hloads₁ hloads₂
    hprogram₁ hprogram₂ hslice₁ hslice₂ (fun _ => ⟨by decide, by decide⟩) () acceptingTransport
  exact ⟨core, out, a, b, hterminates, ha, hb, hiff⟩

end Project

end VmmShowcase
