import VmmShowcase.Vm.VirtualMachine

/-! # What one instruction and one slice do

`executes_of_executeOne` says once everything `ExecuteOne` can do to a machine; what a slice does
follows from it by the rules for budgeted runs. The main result is `runForSlice_add`: two slices
are one slice of the summed length, however the split falls relative to a halt, a fault, a
migration or the end of the program. -/

namespace VmmShowcase

namespace VirtualMachine

/-- The ways `ExecuteOne` ends: its count and the machine it leaves. -/
inductive Executes (vm : VirtualMachine) (inst : Instruction) : Nat × VirtualMachine → Prop where
  | retire (hop : inst.opcode ≠ .migrate) (memory : VirtualMemory) (cpu : CpuState)
      (hpc : cpu.pc = vm.cpu.pc) : Executes vm inst ({ vm with memory := memory }.retire cpu)
  | raise (hop : inst.opcode ≠ .migrate) (memory : VirtualMemory) (fault : VmFault) :
      Executes vm inst ({ vm with memory := memory }.raise fault)
  | migrate (hop : inst.opcode = .migrate) : Executes vm inst
      (0, { vm with pendingMigrationTarget := some inst.label, status := .blocked })
  | halt (hop : inst.opcode = .halt) : Executes vm inst (0, { vm with status := .halted })

/-- An instruction that writes a register and retires. -/
theorem Executes.of_setReg {vm : VirtualMachine} {inst : Instruction} {p : Nat × VirtualMachine}
    (hop : inst.opcode ≠ .migrate) {memory : VirtualMemory} {value : Word}
    (h : (vm.cpu.setReg inst.rd value).bind
      (fun cpu => some ({ vm with memory := memory }.retire cpu)) = some p) : Executes vm inst p := by
  rw [Option.bind_eq_some_iff] at h
  obtain ⟨cpu, hcpu, heq⟩ := h
  cases heq
  exact .retire hop memory cpu (CpuState.setReg_pc hcpu)

/-- **Inversion of `ExecuteOne`.** -/
theorem executes_of_executeOne {vm : VirtualMachine} {inst : Instruction}
    {p : Nat × VirtualMachine} (h : vm.executeOne inst = some p) : Executes vm inst p := by
  cases hop : inst.opcode with
  | li =>
      simp only [executeOne, hop] at h
      exact .of_setReg (by simp [hop]) h
  | add | sub | mul =>
      simp only [executeOne, hop, Option.bind_eq_bind, Option.bind_eq_some_iff] at h
      obtain ⟨a, -, b, -, hset⟩ := h
      exact .of_setReg (by simp [hop]) (Option.bind_eq_some_iff.mpr hset)
  | addi =>
      simp only [executeOne, hop, Option.bind_eq_bind, Option.bind_eq_some_iff] at h
      obtain ⟨a, -, hset⟩ := h
      exact .of_setReg (by simp [hop]) (Option.bind_eq_some_iff.mpr hset)
  | div =>
      simp only [executeOne, hop, Option.bind_eq_bind, Option.bind_eq_some_iff] at h
      obtain ⟨divisor, -, h⟩ := h
      split at h
      · cases h
        exact .raise (by simp [hop]) vm.memory divideByZero
      · rw [Option.bind_eq_some_iff] at h
        obtain ⟨dividend, -, heq⟩ := h
        cases heq
        exact .retire (by simp [hop]) vm.memory _ rfl
  | lw =>
      simp only [executeOne, hop] at h
      split at h
      · -- the failed access may have filled the TLB, so the memory is another one
        cases h
        exact .raise (by simp [hop]) _ _
      · exact .of_setReg (by simp [hop]) h
  | sw =>
      simp only [executeOne, hop, Option.bind_eq_bind, Option.bind_eq_some_iff] at h
      obtain ⟨value, -, h⟩ := h
      split at h
      · cases h
        exact .raise (by simp [hop]) _ _
      · cases h
        exact .retire (by simp [hop]) _ vm.cpu rfl
  | dumpProcessorState | snapshot =>
      simp only [executeOne, hop] at h
      cases h
      exact .retire (by simp [hop]) vm.memory vm.cpu rfl
  | migrate =>
      simp only [executeOne, hop] at h
      cases h
      exact .migrate hop
  | halt =>
      simp only [executeOne, hop] at h
      cases h
      exact .halt hop
  | and | or | xor | sll | srl | invalid =>
      simp only [executeOne, hop] at h
      cases h
      exact .raise (by simp [hop]) vm.memory illegalOpcode

/-- An instruction whose register operands name registers has defined behaviour. -/
theorem exists_executeOne (vm : VirtualMachine) {inst : Instruction} (h : inst.RegistersInRange) :
    ∃ p, vm.executeOne inst = some p := by
  obtain ⟨s, hs⟩ := vm.cpu.exists_reg h.rs
  obtain ⟨t, ht⟩ := vm.cpu.exists_reg h.rt
  have hset : ∀ value, ∃ cpu, vm.cpu.setReg inst.rd value = some cpu :=
    fun value => vm.cpu.exists_setReg h.rd value
  cases hop : inst.opcode with
  | li | add | addi | sub | mul =>
      simp only [executeOne, hop, hs, ht, Option.bind_eq_bind, Option.bind_some]
      obtain ⟨cpu, hcpu⟩ := hset _
      exact ⟨_, by rw [hcpu]; rfl⟩
  | div =>
      simp only [executeOne, hop, hs, ht, Option.bind_eq_bind, Option.bind_some]
      split <;> exact ⟨_, rfl⟩
  | lw =>
      simp only [executeOne, hop]
      split
      · exact ⟨_, rfl⟩
      · obtain ⟨cpu, hcpu⟩ := hset _
        exact ⟨_, by rw [hcpu]; rfl⟩
  | sw =>
      simp only [executeOne, hop, hs, Option.bind_eq_bind, Option.bind_some]
      split <;> exact ⟨_, rfl⟩
  | _ =>
      simp only [executeOne, hop]
      exact ⟨_, rfl⟩

/-! ## The loop of `RunForSlice` -/

/-- The program counter is past the program exactly where nothing is fetched. -/
theorem fetch_eq_none_iff {vm : VirtualMachine} :
    vm.fetch = none ↔ vm.program.size ≤ vm.cpu.pc.toNat := List.getElem?_eq_none_iff

/-- What is fetched stands in the program. -/
theorem fetch_mem {vm : VirtualMachine} {inst : Instruction} (h : vm.fetch = some inst) :
    inst ∈ vm.program.insts := List.mem_of_getElem? h

/-- Where an instruction is fetched, the program counter is below the size. -/
theorem pc_lt_of_fetch {vm : VirtualMachine} {inst : Instruction} (h : vm.fetch = some inst) :
    vm.cpu.pc.toNat < vm.program.size := by
  by_contra hle
  rw [fetch_eq_none_iff.mpr (Nat.not_lt.mp hle)] at h
  exact absurd h (by simp)

/-- Below the size of a program, `++pc` does not wrap. -/
theorem toNat_advance_pc {vm : VirtualMachine} {inst : Instruction} (h : vm.fetch = some inst)
    {cpu : CpuState} (hpc : cpu.pc = vm.cpu.pc) :
    cpu.advance.pc.toNat = vm.cpu.pc.toNat + 1 := by
  have hlt := pc_lt_of_fetch h
  -- the program counter is below the size of a vector, which fits 64 bits
  have hsize : vm.program.size < 2 ^ 64 := vm.program.size_lt
  rw [CpuState.advance, hpc, BitVec.toNat_add]
  exact Nat.mod_eq_of_lt (by simp; omega)

/-- A round that advances applies one instruction. -/
theorem executeOne_of_advance {vm vm' : VirtualMachine} (h : vm.sliceStep = some (true, vm')) :
    ∃ inst, vm.fetch = some inst ∧ vm.executeOne inst = some (1, vm') := by
  rw [sliceStep] at h
  cases hf : vm.fetch with
  | none =>
      rw [hf] at h
      cases h
  | some inst =>
      simp only [hf, Option.map_eq_some_iff] at h
      obtain ⟨p, hp, heq⟩ := h
      refine ⟨inst, rfl, ?_⟩
      cases executes_of_executeOne hp with
      | retire =>
          cases heq
          exact hp
      | raise => cases heq
      | migrate => cases heq
      | halt => cases heq

/-- A round that advances has retired an instruction. -/
theorem sliceStep_advance {vm vm' : VirtualMachine} (h : vm.sliceStep = some (true, vm')) :
    ∃ inst memory cpu, vm.fetch = some inst ∧ inst.opcode ≠ .migrate ∧ cpu.pc = vm.cpu.pc
      ∧ vm' = ({ vm with memory := memory }.retire cpu).2 := by
  obtain ⟨inst, hf, hexec⟩ := executeOne_of_advance h
  generalize hp : (1, vm') = p at hexec
  cases executes_of_executeOne hexec with
  | retire hop memory cpu hpc =>
      cases hp
      exact ⟨inst, memory, cpu, hf, hop, hpc, rfl⟩
  | raise => cases hp
  | migrate => cases hp
  | halt => cases hp

/-- A round that stops has found the end of the program, or an instruction that did not retire. -/
theorem sliceStep_stop {vm vm' : VirtualMachine} (h : vm.sliceStep = some (false, vm')) :
    (vm.fetch = none ∧ vm' = vm)
      ∨ ∃ inst, vm.fetch = some inst ∧ vm.executeOne inst = some (0, vm') := by
  rw [sliceStep] at h
  cases hf : vm.fetch with
  | none => rw [hf] at h; cases h; exact .inl ⟨rfl, rfl⟩
  | some inst =>
      simp only [hf, Option.map_eq_some_iff] at h
      obtain ⟨⟨n, u⟩, hp, heq⟩ := h
      rw [Prod.mk.injEq] at heq
      obtain ⟨hn, rfl⟩ := heq
      obtain rfl : n = 0 := by simpa using hn
      exact .inr ⟨inst, rfl, hp⟩

/-- Every round that advances leaves the machine running. -/
theorem status_of_sliceStep_advance {vm vm' : VirtualMachine}
    (h : vm.sliceStep = some (true, vm')) : vm'.status = .running := by
  obtain ⟨inst, memory, cpu, -, -, -, rfl⟩ := sliceStep_advance h
  rfl

/-- The number of instructions up to the end of the program. -/
def remaining (vm : VirtualMachine) : Nat := vm.program.size - vm.cpu.pc.toNat

/-- Every round that advances leaves fewer instructions. -/
theorem remaining_of_sliceStep_advance {vm vm' : VirtualMachine}
    (h : vm.sliceStep = some (true, vm')) : vm'.remaining < vm.remaining := by
  obtain ⟨inst, memory, cpu, hf, -, hpc, rfl⟩ := sliceStep_advance h
  have hlt := pc_lt_of_fetch hf
  have hpc' := toNat_advance_pc hf hpc
  show vm.program.size - cpu.advance.pc.toNat < vm.program.size - vm.cpu.pc.toNat
  omega

/-- With no instruction left a round stops in place. -/
theorem sliceStep_of_remaining_eq_zero {vm : VirtualMachine} (h : vm.remaining = 0) :
    vm.sliceStep = some (false, vm) := by
  have hf : vm.fetch = none := fetch_eq_none_iff.mpr (Nat.sub_eq_zero_iff_le.mp h)
  rw [sliceStep, hf]

/-! ## Slices -/

/-- The start of a slice. -/
def start (vm : VirtualMachine) : VirtualMachine := { vm with status := .running }

/-- A slice of a live machine. -/
theorem runForSlice_of_not_done {vm : VirtualMachine} (h : ¬ vm.status.Done) (k : Nat) :
    vm.runForSlice k = (BudgetedRun.run sliceStep k vm.start).map fun p => (p.1, p.2.settle) :=
  if_neg h

/-- A slice of a halted or faulted machine does nothing. -/
theorem runForSlice_of_done {vm : VirtualMachine} (h : vm.status.Done) (k : Nat) :
    vm.runForSlice k = some (0, vm) := if_pos h

/-- **Inversion of a slice.** A halted or faulted machine is left as it is, any other one is run from
the start of the slice and settled. -/
theorem runForSlice_cases {vm vm' : VirtualMachine} {k r : Nat}
    (h : vm.runForSlice k = some (r, vm')) :
    (vm.status.Done ∧ r = 0 ∧ vm' = vm)
      ∨ ¬ vm.status.Done ∧ ∃ u, BudgetedRun.run sliceStep k vm.start = some (r, u)
        ∧ vm' = u.settle := by
  by_cases hdone : vm.status.Done
  · rw [runForSlice_of_done hdone] at h
    cases h
    exact .inl ⟨hdone, rfl, rfl⟩
  · rw [runForSlice_of_not_done hdone, Option.map_eq_some_iff] at h
    obtain ⟨⟨r, u⟩, hrun, heq⟩ := h
    cases heq
    exact .inr ⟨hdone, u, hrun, rfl⟩

/-- Past the end of the program a machine settles as halted. -/
theorem settle_of_fetch_none {vm : VirtualMachine} (h : vm.fetch = none) :
    vm.settle = { vm with status := .halted } := if_pos (fetch_eq_none_iff.mp h)

/-- Before the end of the program only the status `running` settles as another one. -/
theorem settle_of_fetch_some {vm : VirtualMachine} {inst : Instruction} (h : vm.fetch = some inst) :
    vm.settle = if vm.status = .running then { vm with status := .ready } else vm :=
  if_neg (Nat.not_le.mpr (pc_lt_of_fetch h))

/-- A machine that settled while running resumes where it was. -/
theorem runForSlice_settle_running {vm : VirtualMachine} (h : vm.status = .running) {k : Nat}
    (hk : 1 ≤ k) :
    vm.settle.runForSlice k
      = (BudgetedRun.run sliceStep k vm).map fun p => (p.1, p.2.settle) := by
  cases hf : vm.fetch with
  | none =>
      -- settled as halted at the end of the program, where a round would stop too
      obtain ⟨k, rfl⟩ := Nat.exists_eq_add_of_le' hk
      have hstep : vm.sliceStep = some (false, vm) := by rw [sliceStep, hf]
      rw [settle_of_fetch_none hf, runForSlice_of_done (.inl rfl), BudgetedRun.run_succ_stop hstep,
        Option.map_some, settle_of_fetch_none hf]
  | some inst =>
      have hstart : vm.settle.start = vm := by
        rw [settle_of_fetch_some hf, if_pos h, start, ← h]
      have hlive : ¬ vm.settle.status.Done := by
        rw [settle_of_fetch_some hf, if_pos h]
        show ¬ VmStatus.Done .ready
        decide
      rw [runForSlice_of_not_done hlive, hstart]

/-- An instruction that does not retire leaves a machine that is already settled. -/
theorem settle_of_executeOne {vm vm' : VirtualMachine} {inst : Instruction}
    (hf : vm.fetch = some inst) (h : vm.executeOne inst = some (0, vm')) : vm'.settle = vm' := by
  cases executes_of_executeOne h with
  | raise | migrate | halt => exact settle_of_fetch_some hf

/-- A machine at a `MIGRATE` stops there, blocked. -/
theorem sliceStep_of_migrate {vm : VirtualMachine} {inst : Instruction} (hf : vm.fetch = some inst)
    (hop : inst.opcode = .migrate) :
    vm.sliceStep = some (false,
      { vm with pendingMigrationTarget := some inst.label, status := .blocked }) := by
  rw [sliceStep, hf]
  simp [executeOne, hop]

/-- A machine that settled after a round that stopped stays where it is: a halted or faulted one
does not run, a blocked one executes its `MIGRATE` again. -/
theorem runForSlice_settle_stopped {vm vm' : VirtualMachine}
    (h : vm.sliceStep = some (false, vm')) {k : Nat} (hk : 1 ≤ k) :
    vm'.settle.runForSlice k = some (0, vm'.settle) := by
  rcases sliceStep_stop h with ⟨hf, rfl⟩ | ⟨inst, hf, hexec⟩
  · rw [settle_of_fetch_none hf, runForSlice_of_done (.inl rfl)]
  have hsettle := settle_of_executeOne hf hexec
  rw [hsettle]
  cases executes_of_executeOne hexec with
  | raise => exact runForSlice_of_done (.inr rfl) k
  | halt => exact runForSlice_of_done (.inl rfl) k
  | migrate hop =>
      obtain ⟨k, rfl⟩ := Nat.exists_eq_add_of_le' hk
      -- the status is set to running again, and the same instruction blocks the machine again
      have hstep : sliceStep { vm with
            pendingMigrationTarget := some inst.label, status := .running } = some (false, _) :=
        sliceStep_of_migrate hf hop
      rw [runForSlice_of_not_done (by show ¬ VmStatus.Done .blocked; decide), start,
        BudgetedRun.run_succ_stop hstep, Option.map_some, hsettle]

/-- `u` is `vm` on the way through a slice, with no migration pending. -/
structure Midway (vm u : VirtualMachine) : Prop where
  pending : u.pendingMigrationTarget = none
  program_eq : u.program = vm.program

/-- A round that advances stays on the way. -/
theorem Midway.sliceStep {vm u u' : VirtualMachine} (h : Midway vm u)
    (hstep : u.sliceStep = some (true, u')) : Midway vm u' := by
  obtain ⟨inst, memory, cpu, -, -, -, rfl⟩ := sliceStep_advance hstep
  exact ⟨h.pending, h.program_eq⟩

/-- Settling leaves the migration intent alone. -/
theorem settle_pending (vm : VirtualMachine) :
    vm.settle.pendingMigrationTarget = vm.pendingMigrationTarget := by
  rw [settle]
  split
  · rfl
  · split <;> rfl

/-- A slice that leaves a migration pending has come to a `MIGRATE`. It leaves the machine blocked,
and further slices leave it as it is. -/
theorem blocked_of_pending {vm vm' : VirtualMachine} {k r : Nat}
    (hpending : vm.pendingMigrationTarget = none) (h : vm.runForSlice k = some (r, vm'))
    (hsome : vm'.pendingMigrationTarget ≠ none) :
    vm'.status = .blocked
      ∧ (∃ inst ∈ vm.program.insts, inst.opcode = .migrate)
      ∧ ∀ {k'}, 1 ≤ k' → vm'.runForSlice k' = some (0, vm') := by
  rcases runForSlice_cases h with ⟨-, -, rfl⟩ | ⟨-, u, hrun, rfl⟩
  · exact absurd hpending hsome
  rw [settle_pending] at hsome
  have hstart : Midway vm vm.start := ⟨hpending, rfl⟩
  rcases BudgetedRun.run_cases (Midway vm) (fun _ _ h => h.sliceStep) hstart hrun with
    ⟨-, t, ht, hstop⟩ | ⟨-, hu⟩
  · rcases sliceStep_stop hstop with ⟨-, rfl⟩ | ⟨inst, hf, hexec⟩
    · exact absurd ht.pending hsome
    have hsettle := settle_of_executeOne hf hexec
    have hmem := fetch_mem hf
    rw [ht.program_eq] at hmem
    cases executes_of_executeOne hexec with
    | raise | halt => exact absurd ht.pending hsome
    | migrate hop =>
        refine ⟨congrArg VirtualMachine.status hsettle, ⟨inst, hmem, hop⟩, ?_⟩
        exact fun hk' => runForSlice_settle_stopped hstop hk'
  · -- the slice used its budget up and has not come to a `MIGRATE`
    exact absurd hu.pending hsome

/-- **Slices compose.** Two slices are one slice of the summed length: same machine after them, and
the counts add up. -/
theorem runForSlice_add (vm : VirtualMachine) {k₁ k₂ : Nat} (h₂ : 1 ≤ k₂) :
    vm.runForSlice (k₁ + k₂) = (vm.runForSlice k₁).bind fun p =>
      (p.2.runForSlice k₂).map fun q => (p.1 + q.1, q.2) := by
  by_cases hdone : vm.status.Done
  · simp [runForSlice_of_done hdone]
  rw [runForSlice_of_not_done hdone, runForSlice_of_not_done hdone, BudgetedRun.run_add]
  have hadvance : ∀ u v : VirtualMachine, u.status = .running →
      u.sliceStep = some (true, v) → v.status = .running :=
    fun _ _ _ => status_of_sliceStep_advance
  cases hrun : BudgetedRun.run sliceStep k₁ vm.start with
  | none => rfl
  | some p =>
      obtain ⟨r, t⟩ := p
      simp only [Option.bind_some, Option.map_some]
      rcases BudgetedRun.run_cases (fun u => u.status = .running) hadvance rfl hrun with
        ⟨hlt, u, -, hstop⟩ | ⟨rfl, ht⟩
      · -- the first slice stopped, and the second one stays there
        rw [if_neg (Nat.ne_of_lt hlt), runForSlice_settle_stopped hstop h₂]
        rfl
      · -- the first slice used its budget up, and the second one goes on where it was
        rw [if_pos rfl, runForSlice_settle_running ht h₂, Option.map_map, Option.map_map]
        rfl

/-- All slices that reach the end of the program are the same: the machine run alone, unbounded. -/
theorem runForSlice_saturate (vm : VirtualMachine) {m n : Nat} (hm : vm.remaining ≤ m)
    (hn : vm.remaining ≤ n) : vm.runForSlice m = vm.runForSlice n := by
  by_cases hdone : vm.status.Done
  · rw [runForSlice_of_done hdone, runForSlice_of_done hdone]
  · have hsat : BudgetedRun.run sliceStep m vm.start = BudgetedRun.run sliceStep n vm.start :=
      BudgetedRun.run_saturate remaining (fun _ _ => remaining_of_sliceStep_advance)
        (fun _ => sliceStep_of_remaining_eq_zero) hm hn
    rw [runForSlice_of_not_done hdone, runForSlice_of_not_done hdone, hsat]

/-! ## What a slice leaves alone -/

/-- A machine of the same configuration and program. -/
structure SameProgram (vm vm' : VirtualMachine) : Prop where
  config_eq : vm'.config = vm.config
  program_eq : vm'.program = vm.program

/-- A round changes neither configuration nor program. -/
theorem SameProgram.sliceStep {vm u u' : VirtualMachine} {b : Bool} (h : SameProgram vm u)
    (hstep : u.sliceStep = some (b, u')) : SameProgram vm u' := by
  cases b with
  | true =>
      obtain ⟨inst, memory, cpu, -, -, -, rfl⟩ := sliceStep_advance hstep
      exact ⟨h.config_eq, h.program_eq⟩
  | false =>
      rcases sliceStep_stop hstep with ⟨-, rfl⟩ | ⟨inst, -, hexec⟩
      · exact h
      · cases executes_of_executeOne hexec <;> exact ⟨h.config_eq, h.program_eq⟩

/-- Settling changes neither configuration nor program. -/
theorem SameProgram.settle {vm u : VirtualMachine} (h : SameProgram vm u) :
    SameProgram vm u.settle := by
  rw [VirtualMachine.settle]
  split
  · exact ⟨h.config_eq, h.program_eq⟩
  · split
    · exact ⟨h.config_eq, h.program_eq⟩
    · exact h

/-- A slice changes neither configuration nor program. -/
theorem sameProgram_runForSlice {vm vm' : VirtualMachine} {k r : Nat}
    (h : vm.runForSlice k = some (r, vm')) : SameProgram vm vm' := by
  rcases runForSlice_cases h with ⟨-, -, rfl⟩ | ⟨-, u, hrun, rfl⟩
  · exact ⟨rfl, rfl⟩
  · have hstart : SameProgram vm vm.start := ⟨rfl, rfl⟩
    have hsame : SameProgram vm u := BudgetedRun.run_invariant (SameProgram vm)
      (fun _ _ _ h hstep => h.sliceStep hstep) hstart hrun
    exact hsame.settle

/-- A slice of a program whose register operands name registers has defined behaviour. -/
theorem exists_runForSlice {vm : VirtualMachine} (h : vm.program.RegistersInRange) (k : Nat) :
    ∃ p, vm.runForSlice k = some p := by
  by_cases hdone : vm.status.Done
  · exact ⟨_, runForSlice_of_done hdone k⟩
  · have hstep : ∀ u, SameProgram vm u → ∃ p, u.sliceStep = some p := by
      intro u hu
      rw [VirtualMachine.sliceStep]
      cases hf : u.fetch with
      | none => exact ⟨_, rfl⟩
      | some inst =>
          have hmem := fetch_mem hf
          rw [hu.program_eq] at hmem
          obtain ⟨p, hp⟩ := u.exists_executeOne (h inst hmem)
          exact ⟨(p.1 != 0, p.2), by simp only [hp, Option.map_some]⟩
    obtain ⟨p, hp⟩ := BudgetedRun.exists_run (SameProgram vm) hstep
      (fun _ _ h hs => h.sliceStep hs) vm.start ⟨rfl, rfl⟩ k
    exact ⟨_, by rw [runForSlice_of_not_done hdone, hp]; rfl⟩

end VirtualMachine

end VmmShowcase
