import VmmShowcase.Hypervisor.Output
import VmmShowcase.Hypervisor.RetiredCounts
import VmmShowcase.Legacy.Agreement
import VmmShowcase.Legacy.TimeSharing

/-! # One program, two interpreters

A program that is read as written means the same to both interpreters: where it stops, the registers it
leaves and the states it dumps. What is written is given a meaning of its own, which the newer interpreter
has up to a division by zero, where it faults, and the legacy one where nothing is divided by zero. So the
two programs, each with two machines and its own schedule, come to the same registers. -/

namespace VmmShowcase

open Text TextStream

/-- A line that both interpreters read: an instruction, with more blanks than one behind the operation and
with blanks behind its commas, or a dump. -/
inductive SourceLine where
  | instruction (inst : SharedInstruction) (k₀ k₁ k₂ : Nat)
  | dump
  deriving DecidableEq

/-- What a program means: the processor it stops with, whether that is its end, and what it dumps. -/
structure Meaning where
  cpu : CpuState
  ended : Bool
  dumps : List CpuState

namespace SharedInstruction

instance (regs : RegisterFile) : (inst : SharedInstruction) → Decidable (inst.Divides regs)
  | div _ rt => inferInstanceAs (Decidable (regs rt ≠ 0))
  | li _ _ | add _ _ _ | addi _ _ _ | sub _ _ _ | mul _ _ _ => inferInstanceAs (Decidable True)

end SharedInstruction

namespace SourceLine

/-- The text of a line. -/
def text : SourceLine → List Byte
  | instruction inst k₀ k₁ k₂ => inst.line k₀ k₁ k₂
  | dump => dumpProcessorState

/-- The line is read as written. -/
def ReadAsWritten : SourceLine → Prop
  | instruction inst _ k₁ k₂ => inst.ReadAsWritten k₁ k₂
  | dump => True

/-- The line divides by no zero. -/
def Divides (regs : RegisterFile) : SourceLine → Prop
  | instruction inst _ _ _ => inst.Divides regs
  | dump => True

instance (regs : RegisterFile) : (line : SourceLine) → Decidable (line.Divides regs)
  | instruction inst _ _ _ => inferInstanceAs (Decidable (inst.Divides regs))
  | dump => inferInstanceAs (Decidable True)

/-- What a line does to the processor. -/
def next (cpu : CpuState) : SourceLine → CpuState
  | instruction inst _ _ _ => (inst.next cpu).advance
  | dump => cpu.advance

/-- What a line dumps. -/
def dumped (cpu : CpuState) : SourceLine → List CpuState
  | instruction _ _ _ _ => []
  | dump => [cpu]

/-- The `Instruction` that `ParseProgram` makes of a line. -/
def decoded : SourceLine → Instruction
  | instruction inst _ k₁ k₂ => (inst.read k₁ k₂).decoded
  | dump => { opcode := .dumpProcessorState }

/-- The meaning of a program: its lines have their effects in turn, up to the first division by zero. -/
def meaning : (lines : List SourceLine) → CpuState → Meaning
  | [], cpu => { cpu, ended := true, dumps := [] }
  | line :: lines, cpu =>
      if line.Divides cpu.regs then
        let rest := meaning lines (line.next cpu)
        { rest with dumps := line.dumped cpu ++ rest.dumps }
      else { cpu, ended := false, dumps := [] }

/-- A line has its effect, and the others theirs. -/
theorem meaning_cons {line : SourceLine} {cpu : CpuState} (h : line.Divides cpu.regs)
    (lines : List SourceLine) : meaning (line :: lines) cpu = { meaning lines (line.next cpu) with
      dumps := line.dumped cpu ++ (meaning lines (line.next cpu)).dumps } := if_pos h

/-- A line goes on behind itself. -/
theorem exists_next_eq (cpu : CpuState) (line : SourceLine) :
    ∃ cpu' : CpuState, line.next cpu = cpu'.advance ∧ cpu'.pc = cpu.pc := by
  cases line with
  | instruction inst k₀ k₁ k₂ => exact ⟨inst.next cpu, rfl, by cases inst <;> rfl⟩
  | dump => exact ⟨cpu, rfl, rfl⟩

/-- A division by zero stops a program. -/
theorem meaning_cons_of_not {line : SourceLine} {cpu : CpuState} (h : ¬ line.Divides cpu.regs)
    (lines : List SourceLine) : meaning (line :: lines) cpu = { cpu, ended := false, dumps := [] } :=
  if_neg h

end SourceLine

/-! ## The legacy interpreter -/

namespace SharedInstruction

/-- The operation of a line with an instruction. -/
theorem opcodeOf_line_ne (inst : SharedInstruction) (k₀ k₁ k₂ : Nat) :
    opcodeOf (inst.line k₀ k₁ k₂) ≠ dumpProcessorState := by
  have hop : ∀ (op operands : List Byte), space ∉ op → op ≠ dumpProcessorState →
      opcodeOf (op ++ space :: operands) ≠ dumpProcessorState := by
    intro op operands hspace hop
    rwa [opcodeOf, getline_ofText hspace]
  cases inst <;> exact hop _ _ (by decide) (by decide)

/-- The legacy interpreter divides by nothing that is zero. -/
theorem run_ofCpu_of_not {inst : SharedInstruction} {cpu : CpuState} (h : ¬ inst.Divides cpu.regs) :
    inst.run (.ofCpu cpu) = none := by
  cases inst with
  | div rs rt =>
      have hzero : cpu.regs rt = 0 := not_not.mp h
      simp [run, VmClass.divi, VmClass.reg, VmClass.ofCpu, hzero]
  | _ => exact absurd trivial h

end SharedInstruction

namespace Project

open SourceLine

/-- The machine with a processor's registers. -/
def withCpu (config : Configuration) (cpu : CpuState) : VmClass := ⟨.ofCpu cpu, config⟩

/-- What `dumpstate` prints of processors. -/
def dumpTexts (cpus : List CpuState) : List Byte := cpus.flatMap fun cpu => dumpstate (.ofCpu cpu)

/-- A line that divides by no zero. -/
theorem emit_text {line : SourceLine} {cpu : CpuState} (h : line.Divides cpu.regs)
    (config : Configuration) :
    emit line.text (withCpu config cpu)
      = some (withCpu config (line.next cpu), dumpTexts (line.dumped cpu)) := by
  rw [emit, solve_eq, List.nil_append]
  cases line with
  | instruction inst k₀ k₁ k₂ =>
      have hsolve : VmmShowcase.solve (inst.line k₀ k₁ k₂) (.ofCpu cpu) = _ :=
        (solve_line inst k₀ k₁ k₂ _).trans (SharedInstruction.run_ofCpu h)
      show (VmmShowcase.solve (inst.line k₀ k₁ k₂) (.ofCpu cpu)).map _ = _
      rw [hsolve, printed, text, if_neg (inst.opcodeOf_line_ne k₀ k₁ k₂)]
      rfl
  | dump =>
      have hop : opcodeOf dumpProcessorState = dumpProcessorState := by decide
      have hsolve : VmmShowcase.solve dumpProcessorState (.ofCpu cpu) = some (.ofCpu cpu) := by
        rw [VmmShowcase.solve]
        exact if_pos hop
      show (VmmShowcase.solve dumpProcessorState (.ofCpu cpu)).map _ = _
      rw [hsolve, printed, text, if_pos hop, dumped, dumpTexts, List.flatMap_singleton]
      rfl

/-- A line that divides by zero. -/
theorem emit_text_of_not {line : SourceLine} {cpu : CpuState} (h : ¬ line.Divides cpu.regs)
    (config : Configuration) : emit line.text (withCpu config cpu) = none := by
  rw [emit, solve_eq]
  cases line with
  | instruction inst k₀ k₁ k₂ =>
      have hsolve : VmmShowcase.solve (inst.line k₀ k₁ k₂) (.ofCpu cpu) = none :=
        (solve_line inst k₀ k₁ k₂ _).trans (SharedInstruction.run_ofCpu_of_not h)
      show (VmmShowcase.solve (inst.line k₀ k₁ k₂) (.ofCpu cpu)).map _ = _
      rw [hsolve, Option.map_none]
  | dump => exact absurd trivial h

/-- **The legacy interpreter** executes a program that comes to its end, and no other. -/
theorem solo_text (lines : List SourceLine) (config : Configuration) (cpu : CpuState) :
    ∃ trace, trace.flatten = dumpTexts (meaning lines cpu).dumps
      ∧ TimeSlicing.solo emit (lines.map text) (withCpu config cpu)
        = if (meaning lines cpu).ended then some (withCpu config (meaning lines cpu).cpu, trace)
          else none := by
  induction lines generalizing cpu with
  | nil => exact ⟨[], rfl, rfl⟩
  | cons line lines ih =>
      by_cases hdivides : line.Divides cpu.regs
      · obtain ⟨trace, htrace, hsolo⟩ := ih (line.next cpu)
        refine ⟨dumpTexts (line.dumped cpu) :: trace, ?_, ?_⟩
        · rw [List.flatten_cons, htrace, meaning_cons hdivides, dumpTexts, dumpTexts, dumpTexts,
            List.flatMap_append]
        · rw [List.map_cons, TimeSlicing.solo_cons, emit_text hdivides, Option.bind_some, hsolo,
            meaning_cons hdivides]
          split <;> rfl
      · refine ⟨[], by rw [meaning_cons_of_not hdivides]; rfl, ?_⟩
        rw [List.map_cons, TimeSlicing.solo_cons, emit_text_of_not hdivides, Option.bind_none,
          meaning_cons_of_not hdivides]
        rfl

end Project

/-! ## The newer interpreter -/

namespace SharedInstruction

/-- The registers of an instruction name registers. -/
theorem registersInRange_decoded (inst : SharedInstruction) : inst.decoded.RegistersInRange := by
  have hindex : ∀ i : Fin 32, RegisterIndex ((i : Nat) : Int) := by
    intro i
    have hi := i.isLt
    exact ⟨by omega, by omega⟩
  have hzero : RegisterIndex 0 := by decide
  cases inst <;> refine ⟨?_, ?_, ?_⟩ <;> first | exact hindex _ | exact hzero

/-- An instruction is neither a dump nor a `MIGRATE`. -/
theorem opcode_decoded_ne (inst : SharedInstruction) :
    inst.decoded.opcode ≠ .dumpProcessorState ∧ inst.decoded.opcode ≠ .migrate := by
  cases inst <;> exact ⟨nofun, nofun⟩

/-- An instruction that divides by zero, and is read as written, is read as one that does. -/
theorem not_divides_read {inst : SharedInstruction} {k₁ k₂ : Nat} {regs : RegisterFile}
    (hread : inst.ReadAsWritten k₁ k₂) (h : ¬ inst.Divides regs) :
    ¬ (inst.read k₁ k₂).Divides regs := by
  cases inst with
  | div rs rt =>
      obtain hk | rfl := hread
      · rwa [read, if_neg hk.ne']
      · rwa [read, ite_self]
  | _ => exact absurd trivial h

/-- The newer interpreter faults where an instruction divides by zero. -/
theorem executeOne_decoded_of_not {inst : SharedInstruction} {vm : VirtualMachine}
    (h : ¬ inst.Divides vm.cpu.regs) :
    vm.executeOne inst.decoded = some (vm.raise divideByZero) := by
  cases inst with
  | div rs rt =>
      have hzero : vm.cpu.regs rt = 0 := not_not.mp h
      simp only [decoded, VirtualMachine.executeOne, CpuState.reg_fin, Option.bind_eq_bind,
        Option.bind_some, if_pos hzero]
      rfl
  | _ => exact absurd trivial h

end SharedInstruction

namespace SourceLine

/-- What `ParseProgram` makes of a line. -/
theorem parseLine_text (line : SourceLine) : parseLine line.text = some (some line.decoded) := by
  cases line with
  | instruction inst k₀ k₁ k₂ => exact inst.parseLine_line k₀ k₁ k₂
  | dump => decide

/-- What `ParseProgram` makes of a program. -/
theorem parseProgram_text (lines : List SourceLine) :
    parseProgram (lines.map text) = some (lines.map decoded) := by
  induction lines with
  | nil => rfl
  | cons line lines ih =>
      exact parseProgram_cons_eq_some_iff.mpr ⟨_, _, parseLine_text line, ih, rfl⟩

/-- The registers of a line name registers. -/
theorem registersInRange_decoded (line : SourceLine) : line.decoded.RegistersInRange := by
  cases line with
  | instruction inst k₀ k₁ k₂ => exact (inst.read k₁ k₂).registersInRange_decoded
  | dump => decide

/-- No line is a `MIGRATE`. -/
theorem opcode_decoded_ne (line : SourceLine) : line.decoded.opcode ≠ .migrate := by
  cases line with
  | instruction inst k₀ k₁ k₂ => exact (inst.read k₁ k₂).opcode_decoded_ne.2
  | dump => decide

end SourceLine

namespace VirtualMachine

open SourceLine

/-- What the machine prints of processors. -/
def dumpLines (vm : VirtualMachine) (cpus : List CpuState) : List CString :=
  cpus.map fun cpu => { vm with cpu }.dumpLine

/-- The machine with the effect of a line. -/
def afterLine (vm : VirtualMachine) (line : SourceLine) : VirtualMachine :=
  { vm with cpu := line.next vm.cpu, status := .running }

/-- A line that divides by no zero retires. -/
theorem sliceStep_line {vm : VirtualMachine} {line : SourceLine} (hread : line.ReadAsWritten)
    (hf : vm.fetch = some line.decoded) (h : line.Divides vm.cpu.regs) :
    vm.sliceStep = some (true, vm.afterLine line) := by
  have hexec : vm.executeOne line.decoded = some (1, vm.afterLine line) := by
    cases line with
    | instruction inst k₀ k₁ k₂ =>
        have hdivides := SharedInstruction.divides_read hread h
        have hnext := SharedInstruction.next_read hread vm.cpu
        exact (SharedInstruction.executeOne_decoded hdivides).trans (by rw [hnext]; rfl)
    | dump => rfl
  simp only [sliceStep, hf, hexec]
  rfl

/-- A line that divides by zero faults. -/
theorem executeOne_line_of_not {vm : VirtualMachine} {line : SourceLine} (hread : line.ReadAsWritten)
    (h : ¬ line.Divides vm.cpu.regs) :
    vm.executeOne line.decoded = some (vm.raise divideByZero) := by
  cases line with
  | instruction inst k₀ k₁ k₂ =>
      exact SharedInstruction.executeOne_decoded_of_not (SharedInstruction.not_divides_read hread h)
  | dump => exact absurd trivial h

/-- A line prints what it dumps. -/
theorem printed_line {vm : VirtualMachine} {line : SourceLine} (hf : vm.fetch = some line.decoded) :
    vm.printed = vm.dumpLines (line.dumped vm.cpu) := by
  simp only [printed, hf]
  cases line with
  | instruction inst k₀ k₁ k₂ => exact if_neg (inst.read k₁ k₂).opcode_decoded_ne.1
  | dump => exact if_pos rfl

/-- The lines have run on a machine that was in state `cpu` as they are meant: they have left `vm` and have
printed what they dump. -/
structure RunsAsMeant (lines : List SourceLine) (cpu : CpuState) (vm : VirtualMachine)
    (printed : List CString) : Prop where
  cpu_eq : vm.cpu = (meaning lines cpu).cpu
  status_eq : vm.status = if (meaning lines cpu).ended then .halted else .faulted
  printed_eq : printed = vm.dumpLines (meaning lines cpu).dumps

/-- Machines of one name print alike. -/
theorem dumpLines_of_config_eq {vm vm' : VirtualMachine} (h : vm'.config = vm.config)
    (cpus : List CpuState) : vm'.dumpLines cpus = vm.dumpLines cpus := by
  rw [dumpLines, dumpLines]
  simp only [dumpLine, h]

/-- Running on behind a line is running from it. -/
theorem RunsAsMeant.cons {line : SourceLine} {lines : List SourceLine} {cpu : CpuState}
    {vm : VirtualMachine} {printed : List CString} (h : RunsAsMeant lines (line.next cpu) vm printed)
    (hdivides : line.Divides cpu.regs) :
    RunsAsMeant (line :: lines) cpu vm (vm.dumpLines (line.dumped cpu) ++ printed) := by
  refine ⟨?_, ?_, ?_⟩
  · rw [h.cpu_eq, meaning_cons hdivides]
  · rw [h.status_eq, meaning_cons hdivides]
  · rw [h.printed_eq, meaning_cons hdivides, dumpLines, dumpLines, dumpLines, List.map_append]

/-- **The newer interpreter**, at the next lines of its program. -/
theorem exists_run_lines {lines : List SourceLine} (hread : ∀ line ∈ lines, line.ReadAsWritten)
    {vm : VirtualMachine} (hinsts : vm.program.insts.drop vm.cpu.pc.toNat = lines.map decoded) {n : Nat}
    (hn : lines.length < n) : ∃ r vm', BudgetedRun.run sliceStep n vm = some (r, vm')
      ∧ vm'.settle.config = vm.config
      ∧ RunsAsMeant lines vm.cpu vm'.settle (BudgetedRun.output sliceStep printed n vm) := by
  induction lines generalizing vm n with
  | nil =>
      obtain ⟨n, rfl⟩ := Nat.exists_eq_succ_of_ne_zero (Nat.ne_of_gt hn)
      have hf : vm.fetch = none := by
        rw [fetch_eq_none_iff]
        exact List.drop_eq_nil_iff.mp hinsts
      have hstep : vm.sliceStep = some (false, vm) := by rw [sliceStep, hf]
      refine ⟨_, vm, BudgetedRun.run_succ_stop hstep, ?_⟩
      rw [settle_of_fetch_none hf, BudgetedRun.output_succ_stop printed hstep,
        printed_of_fetch_none hf]
      exact ⟨rfl, rfl, rfl, rfl⟩
  | cons line lines ih =>
      obtain ⟨n, rfl⟩ := Nat.exists_eq_succ_of_ne_zero (Nat.ne_of_gt (Nat.zero_lt_of_lt hn))
      have hline := hread line (List.mem_cons_self ..)
      have hf : vm.fetch = some line.decoded := by
        rw [fetch, ← List.head?_drop, hinsts]
        rfl
      by_cases hdivides : line.Divides vm.cpu.regs
      · have hstep := sliceStep_line hline hf hdivides
        have hpc : (line.next vm.cpu).pc.toNat = vm.cpu.pc.toNat + 1 := by
          obtain ⟨cpu, hnext, hpc⟩ := exists_next_eq vm.cpu line
          rw [hnext, toNat_advance_pc hf hpc]
        have hinsts' : (vm.afterLine line).program.insts.drop (vm.afterLine line).cpu.pc.toNat
            = lines.map decoded := by
          show vm.program.insts.drop (line.next vm.cpu).pc.toNat = _
          rw [hpc, ← List.tail_drop, hinsts]
          rfl
        obtain ⟨r, vm', hrun, hconfig, hmeant⟩ := ih (fun line h => hread line (.tail _ h)) hinsts'
          (Nat.lt_of_succ_lt_succ hn)
        have hconfig : vm'.settle.config = vm.config := hconfig
        refine ⟨r + 1, vm', ?_, hconfig, ?_⟩
        · rw [BudgetedRun.run_succ_advance hstep, hrun]
          rfl
        · rw [BudgetedRun.output_succ_advance printed hstep, printed_line hf,
            ← dumpLines_of_config_eq hconfig]
          exact hmeant.cons hdivides
      · have hexec := executeOne_line_of_not hline hdivides
        have hstep : vm.sliceStep = some (false, (vm.raise divideByZero).2) := by
          simp only [sliceStep, hf, hexec]
          rfl
        have hsettle : (vm.raise divideByZero).2.settle = (vm.raise divideByZero).2 :=
          settle_of_executeOne hf hexec
        refine ⟨_, _, BudgetedRun.run_succ_stop hstep, ?_⟩
        rw [hsettle, BudgetedRun.output_succ_stop printed hstep, printed_of_stop hstep]
        refine ⟨rfl, ?_, ?_, ?_⟩ <;> rw [meaning_cons_of_not hdivides] <;> rfl

/-- **The newer interpreter** runs a program alone as it is meant. -/
theorem EndsAs.runsAsMeant {config : VmConfig} {program : Program} {vm : VirtualMachine}
    (h : EndsAs (create config program) vm) {lines : List SourceLine}
    (hread : ∀ line ∈ lines, line.ReadAsWritten) (hprogram : program.insts = lines.map decoded) :
    RunsAsMeant lines {} vm (create config program).printsAlone := by
  have hlive : ¬ (create config program).status.Done := by
    show ¬ VmStatus.Done .ready
    decide
  have hsize : program.size = lines.length := by
    rw [Program.size, hprogram, List.length_map]
  have hinsts : (create config program).start.program.insts.drop
      (create config program).start.cpu.pc.toNat = lines.map decoded := by
    rw [← hprogram]
    rfl
  obtain ⟨r, hrun⟩ := h.alone (program.size + 1) (Nat.le_succ _)
  obtain ⟨-, u, hu, rfl⟩ := (runForSlice_cases hrun).resolve_left fun hdone => hlive hdone.1
  obtain ⟨r', u', hu', -, hmeant⟩ := exists_run_lines hread hinsts (n := program.size + 1) (by omega)
  rw [hu, Option.some.injEq, Prod.mk.injEq] at hu'
  obtain ⟨-, rfl⟩ := hu'
  -- one more instruction is never printed
  have hle : (create config program).start.remaining ≤ program.size := Nat.sub_le _ _
  have halone : (create config program).printsAlone
      = BudgetedRun.output sliceStep printed (program.size + 1) (create config program).start :=
    (sliceOutput_of_not_done hlive _).trans (output_saturate hle (hle.trans (Nat.le_succ _)))
  rw [halone]
  exact hmeant

end VirtualMachine

end VmmShowcase
