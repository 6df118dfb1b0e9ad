import VmmShowcase.Vm.Stepping

/-! # Slices stop precisely

A slice that returns `r` has applied exactly `r` instructions: processor and bytes are what these
instructions make of them, one after the other, and nothing of a further one shows. The status it
leaves tells why it stopped there. -/

namespace VmmShowcase

namespace VirtualMachine

/-- Apply `n` instructions in order, from the program counter on; each of them must retire. -/
def applyInstructions : (n : Nat) → VirtualMachine → Option VirtualMachine
  | 0, vm => some vm
  | n + 1, vm => do
      let inst ← vm.fetch
      let (retired, vm) ← vm.executeOne inst
      if retired = 1 then applyInstructions n vm else none

/-- The faults of an instruction. -/
inductive Faults (vm : VirtualMachine) (inst : Instruction) : VmFault → Prop where
  | illegal (hop : inst.opcode ∈ [.and, .or, .xor, .sll, .srl, .invalid]) :
      Faults vm inst illegalOpcode
  | division (hop : inst.opcode = .div) (hzero : vm.cpu.reg inst.rt = some 0) :
      Faults vm inst divideByZero
  | load {fault : VmFault} (hop : inst.opcode = .lw)
      (hfault : (vm.memory.translate inst.imm).1 = .error fault) : Faults vm inst fault
  | store {fault : VmFault} (hop : inst.opcode = .sw)
      (hfault : (vm.memory.translate inst.imm).1 = .error fault) : Faults vm inst fault

/-- The ways `ExecuteOne` returns 0: nothing of the instruction shows in processor or bytes. -/
inductive StopsOn (vm : VirtualMachine) (inst : Instruction) : VirtualMachine → Prop where
  | halt (hop : inst.opcode = .halt) : StopsOn vm inst { vm with status := .halted }
  | migrate (hop : inst.opcode = .migrate) : StopsOn vm inst
      { vm with pendingMigrationTarget := some inst.label, status := .blocked }
  | fault {fault : VmFault} (h : vm.Faults inst fault) {memory : VirtualMemory}
      (hbytes : memory.bytes = vm.memory.bytes) :
      StopsOn vm inst ({ vm with memory := memory }.raise fault).2

end VirtualMachine

namespace VirtualMemory

/-- Translation leaves the bytes alone. -/
theorem translate_bytes (m : VirtualMemory) (virtualAddr : Word) :
    (m.translate virtualAddr).2.bytes = m.bytes := by
  unfold translate checkRange
  split
  · split <;> rfl
  · split
    · rfl
    · split <;> rfl

/-- A read fails exactly where translation does, and leaves the bytes alone. -/
theorem readWord_eq_error {m m' : VirtualMemory} {virtualAddr : Word} {fault : VmFault}
    (h : m.readWord virtualAddr = (.error fault, m')) :
    (m.translate virtualAddr).1 = .error fault ∧ m'.bytes = m.bytes := by
  have hbytes := m.translate_bytes virtualAddr
  rw [readWord] at h
  generalize m.translate virtualAddr = p at h hbytes
  obtain ⟨reply | paddr, m''⟩ := p
  · cases h
    exact ⟨rfl, hbytes⟩
  · cases h

/-- A write fails exactly where translation does, and then leaves the bytes alone. -/
theorem writeWord_eq_error {m m' : VirtualMemory} {virtualAddr value : Word} {fault : VmFault}
    (h : m.writeWord virtualAddr value = (.error fault, m')) :
    (m.translate virtualAddr).1 = .error fault ∧ m'.bytes = m.bytes := by
  have hbytes := m.translate_bytes virtualAddr
  rw [writeWord] at h
  generalize m.translate virtualAddr = p at h hbytes
  obtain ⟨reply | paddr, m''⟩ := p
  · cases h
    exact ⟨rfl, hbytes⟩
  · cases h

end VirtualMemory

namespace VirtualMachine

/-- An instruction that writes a register and retires returns 1. -/
theorem setReg_retire_ne {vm vm' : VirtualMachine} {memory : VirtualMemory} {idx : Int}
    {value : Word} : (vm.cpu.setReg idx value).bind
      (fun cpu => some ({ vm with memory := memory }.retire cpu)) ≠ some (0, vm') := by
  intro h
  rw [Option.bind_eq_some_iff] at h
  obtain ⟨cpu, -, heq⟩ := h
  cases heq

/-- **Inversion of an instruction that does not retire.** -/
theorem stopsOn_of_executeOne {vm vm' : VirtualMachine} {inst : Instruction}
    (h : vm.executeOne inst = some (0, vm')) : vm.StopsOn inst vm' := by
  cases hop : inst.opcode with
  | li =>
      simp only [executeOne, hop] at h
      exact absurd h setReg_retire_ne
  | add | sub | mul =>
      simp only [executeOne, hop, Option.bind_eq_bind, Option.bind_eq_some_iff] at h
      obtain ⟨a, -, b, -, hset⟩ := h
      exact absurd (Option.bind_eq_some_iff.mpr hset) setReg_retire_ne
  | addi =>
      simp only [executeOne, hop, Option.bind_eq_bind, Option.bind_eq_some_iff] at h
      obtain ⟨a, -, hset⟩ := h
      exact absurd (Option.bind_eq_some_iff.mpr hset) setReg_retire_ne
  | div =>
      simp only [executeOne, hop, Option.bind_eq_bind, Option.bind_eq_some_iff] at h
      obtain ⟨divisor, hdivisor, h⟩ := h
      split at h
      · next hzero =>
          cases h
          exact .fault (.division hop (by rw [hdivisor, hzero])) rfl
      · rw [Option.bind_eq_some_iff] at h
        obtain ⟨dividend, -, heq⟩ := h
        cases heq
  | lw =>
      simp only [executeOne, hop] at h
      split at h
      · next hread =>
          cases h
          obtain ⟨hfault, hbytes⟩ := VirtualMemory.readWord_eq_error hread
          exact .fault (.load hop hfault) hbytes
      · exact absurd h setReg_retire_ne
  | sw =>
      simp only [executeOne, hop, Option.bind_eq_bind, Option.bind_eq_some_iff] at h
      obtain ⟨value, -, h⟩ := h
      split at h
      · next hwrite =>
          cases h
          obtain ⟨hfault, hbytes⟩ := VirtualMemory.writeWord_eq_error hwrite
          exact .fault (.store hop hfault) hbytes
      · cases h
  | dumpProcessorState | snapshot =>
      simp only [executeOne, hop] at h
      cases h
  | migrate =>
      simp only [executeOne, hop] at h
      cases h
      exact .migrate hop
  | halt =>
      simp only [executeOne, hop] at h
      cases h
      exact .halt hop
  | and | or | xor | sll | srl | invalid =>
      simp only [executeOne, hop] at h
      cases h
      exact .fault (.illegal (by simp [hop])) rfl

/-- A faulting instruction is neither `HALT` nor `MIGRATE`. -/
theorem Faults.opcode_ne {vm : VirtualMachine} {inst : Instruction} {fault : VmFault}
    (h : vm.Faults inst fault) : inst.opcode ≠ .halt ∧ inst.opcode ≠ .migrate := by
  cases h with
  | illegal hop =>
      constructor
      · intro heq
        rw [heq] at hop
        simp at hop
      · intro heq
        rw [heq] at hop
        simp at hop
  | division hop | load hop | store hop => simp [hop]

/-! ## Rounds and instructions -/

/-- `n` rounds that advance apply `n` instructions and move the program counter by `n`. -/
theorem applyInstructions_of_advances {vm u : VirtualMachine} {n : Nat}
    (h : BudgetedRun.Advances sliceStep n vm u) :
    applyInstructions n vm = some u ∧ u.cpu.pc.toNat = vm.cpu.pc.toNat + n := by
  induction h with
  | zero => exact ⟨rfl, rfl⟩
  | @succ n vm vm' u hstep _ ih =>
      obtain ⟨happly, hpc⟩ := ih
      obtain ⟨inst, hf, hexec⟩ := executeOne_of_advance hstep
      obtain ⟨inst', memory, cpu, hf', -, hcpu, rfl⟩ := sliceStep_advance hstep
      refine ⟨?_, ?_⟩
      · simp only [applyInstructions, hf, hexec, Option.bind_eq_bind, Option.bind_some, if_true]
        exact happly
      · have hone : cpu.advance.pc.toNat = vm.cpu.pc.toNat + 1 := toNat_advance_pc hf' hcpu
        rw [hpc]
        show cpu.advance.pc.toNat + n = vm.cpu.pc.toNat + (n + 1)
        rw [hone, Nat.add_assoc, Nat.add_comm 1 n]

/-- What `n` advances leave alone. -/
theorem status_of_advances {vm u : VirtualMachine} {n : Nat}
    (h : BudgetedRun.Advances sliceStep n vm u) (hrunning : vm.status = .running) :
    u.status = .running :=
  h.invariant (fun u => u.status = .running) (fun _ _ _ => status_of_sliceStep_advance) hrunning

/-! ## The result of a slice -/

/-- The status of `vm'` tells why a slice of budget `k` stopped after `r` instructions, in state
`u`. -/
structure StatusTells (u : VirtualMachine) (k r : Nat) (vm' : VirtualMachine) : Prop where
  not_running : vm'.status ≠ .running
  at_end : vm'.program.size ≤ vm'.cpu.pc.toNat → vm'.status = .halted
  at_budget : vm'.cpu.pc.toNat < vm'.program.size → r = k → vm'.status = .ready
  before : vm'.cpu.pc.toNat < vm'.program.size → r < k → ∃ inst, vm'.fetch = some inst
    ∧ (inst.opcode = .halt → vm'.status = .halted)
    ∧ (inst.opcode = .migrate →
        vm'.status = .blocked ∧ vm'.pendingMigrationTarget = some inst.label)
    ∧ (inst.opcode ≠ .halt → inst.opcode ≠ .migrate →
        vm'.status = .faulted ∧ u.Faults inst vm'.lastFault)

/-- A slice of budget `k` that returns `r` leaves the machine of exactly `r` instructions, with a
status that tells why it stopped. -/
structure PreciseStop (vm : VirtualMachine) (k r : Nat) (vm' : VirtualMachine) : Prop where
  program_eq : vm'.program = vm.program
  le_budget : r ≤ k
  pc_eq : vm'.cpu.pc.toNat = vm.cpu.pc.toNat + r
  applied : ∃ u, applyInstructions r vm.start = some u ∧ vm'.cpu = u.cpu
    ∧ vm'.memory.bytes = u.memory.bytes ∧ StatusTells u k r vm'

/-- A machine past the end of its program settles as halted. -/
theorem statusTells_of_end {u : VirtualMachine} {k r : Nat}
    (hend : u.program.size ≤ u.cpu.pc.toNat) : StatusTells u k r u.settle := by
  rw [settle, if_pos hend]
  have hnot : ¬ u.cpu.pc.toNat < u.program.size := Nat.not_lt.mpr hend
  exact ⟨by simp, fun _ => rfl, fun hlt => absurd hlt hnot, fun hlt => absurd hlt hnot⟩

/-- A machine that used its budget up settles as ready, unless it is at the end. -/
theorem statusTells_of_budget {u : VirtualMachine} {k : Nat} (hrunning : u.status = .running) :
    StatusTells u k k u.settle := by
  by_cases hend : u.program.size ≤ u.cpu.pc.toNat
  · exact statusTells_of_end hend
  · rw [settle, if_neg hend, if_pos hrunning]
    exact ⟨by simp, fun h => absurd h hend, fun _ _ => rfl, fun _ h => absurd h (Nat.lt_irrefl k)⟩

/-- A machine that an instruction stopped tells which one and how. -/
theorem statusTells_of_stopsOn {u u' : VirtualMachine} {inst : Instruction} {k r : Nat}
    (hf : u.fetch = some inst) (hlt : r < k) (h : u.StopsOn inst u') : StatusTells u k r u' := by
  have hnotEnd : ¬ u.program.size ≤ u.cpu.pc.toNat := Nat.not_le.mpr (pc_lt_of_fetch hf)
  have hne : r ≠ k := Nat.ne_of_lt hlt
  -- in each case processor and program, so the instruction at the program counter, are those of `u`
  cases h with
  | halt hop =>
      refine ⟨by simp, fun h => absurd h hnotEnd, fun _ h => absurd h hne, fun _ _ => ?_⟩
      exact ⟨inst, hf, fun _ => rfl, by simp [hop], by simp [hop]⟩
  | migrate hop =>
      refine ⟨by simp, fun h => absurd h hnotEnd, fun _ h => absurd h hne, fun _ _ => ?_⟩
      exact ⟨inst, hf, by simp [hop], fun _ => ⟨rfl, rfl⟩, by simp [hop]⟩
  | fault hfault =>
      obtain ⟨hhalt, hmigrate⟩ := hfault.opcode_ne
      refine ⟨by simp [raise], fun h => absurd h hnotEnd, fun _ h => absurd h hne, fun _ _ => ?_⟩
      exact ⟨inst, hf, fun h => absurd h hhalt, fun h => absurd h hmigrate,
        fun _ _ => ⟨rfl, hfault⟩⟩

/-- Settling changes neither processor nor memory. -/
theorem settle_guestState (vm : VirtualMachine) :
    vm.settle.cpu = vm.cpu ∧ vm.settle.memory = vm.memory := by
  rw [settle]
  split
  · exact ⟨rfl, rfl⟩
  · split <;> exact ⟨rfl, rfl⟩

/-- An instruction that does not retire changes neither processor nor bytes. -/
theorem StopsOn.guestState {vm vm' : VirtualMachine} {inst : Instruction}
    (h : vm.StopsOn inst vm') : vm'.cpu = vm.cpu ∧ vm'.memory.bytes = vm.memory.bytes := by
  cases h with
  | halt | migrate => exact ⟨rfl, rfl⟩
  | fault _ hbytes => exact ⟨rfl, hbytes⟩

/-- A slice of a live machine stops precisely. -/
theorem preciseStop_of_runForSlice {vm vm' : VirtualMachine} {k r : Nat}
    (hlive : ¬ vm.status.Done) (h : vm.runForSlice k = some (r, vm')) : PreciseStop vm k r vm' := by
  have hprogram := (sameProgram_runForSlice h).program_eq
  rcases runForSlice_cases h with ⟨hdone, -, -⟩ | ⟨-, u', hrun, rfl⟩
  · exact absurd hdone hlive
  obtain ⟨u, hadvances, hend⟩ := BudgetedRun.exists_advances hrun
  obtain ⟨happly, hpc⟩ := applyInstructions_of_advances hadvances
  have hrunning := status_of_advances hadvances rfl
  rcases hend with ⟨hlt, hstop⟩ | ⟨rfl, rfl⟩
  · rcases sliceStep_stop hstop with ⟨hf, rfl⟩ | ⟨inst, hf, hexec⟩
    · -- the slice ran off the end of the program
      obtain ⟨hcpu, hmemory⟩ := settle_guestState u'
      refine ⟨hprogram, Nat.le_of_lt hlt, by rw [hcpu, hpc]; rfl, u', happly, hcpu,
        congrArg VirtualMemory.bytes hmemory, ?_⟩
      exact statusTells_of_end (fetch_eq_none_iff.mp hf)
    · have hstops := stopsOn_of_executeOne hexec
      obtain ⟨hcpu, hbytes⟩ := hstops.guestState
      rw [settle_of_executeOne hf hexec] at hprogram ⊢
      exact ⟨hprogram, Nat.le_of_lt hlt, by rw [hcpu, hpc]; rfl, u, happly, hcpu, hbytes,
        statusTells_of_stopsOn hf hlt hstops⟩
  · obtain ⟨hcpu, hmemory⟩ := settle_guestState u'
    exact ⟨hprogram, Nat.le_refl r, by rw [hcpu, hpc]; rfl, u', happly, hcpu,
      congrArg VirtualMemory.bytes hmemory, statusTells_of_budget hrunning⟩

/-- **Precise stops.** A slice of a machine that is neither halted nor faulted, whose program has
its register operands in range, returns some `r` and leaves exactly what `r` instructions make of
the machine, with a status that tells why it stopped. -/
theorem runForSlice_stopsPrecisely {vm : VirtualMachine} (hregs : vm.program.RegistersInRange)
    (hlive : ¬ vm.status.Done) (k : Nat) :
    ∃ r vm', vm.runForSlice k = some (r, vm') ∧ PreciseStop vm k r vm' := by
  obtain ⟨⟨r, vm'⟩, hrun⟩ := exists_runForSlice hregs k
  exact ⟨r, vm', hrun, preciseStop_of_runForSlice hlive hrun⟩

/-- `li R1, 7; div R1, R0; halt`: the division faults. -/
def dividesByZero : Program where
  insts := [{ opcode := .li, rd := 1, imm := 7 }, { opcode := .div, rs := 1 }, { opcode := .halt }]
  size_lt := by decide

/-- The theorem at a slice that a division by zero ends. -/
theorem runForSlice_stopsPrecisely_dividesByZero :
    ∃ r vm', (create { name := [1] } dividesByZero).runForSlice 5 = some (r, vm')
      ∧ PreciseStop (create { name := [1] } dividesByZero) 5 r vm' := by
  have hregs : (create { name := [1] } dividesByZero).program.RegistersInRange := by
    show dividesByZero.RegistersInRange
    decide
  have hlive : ¬ (create { name := [1] } dividesByZero).status.Done := by
    show ¬ VmStatus.Done .ready
    decide
  exact runForSlice_stopsPrecisely hregs hlive 5

/-- **Slices compose, with defined behaviour.** For a program whose register operands are in range,
a slice and another one leave the machine that one slice of the summed length leaves, whatever stops
them, and the counts add up. -/
theorem runForSlice_split {vm : VirtualMachine} (hregs : vm.program.RegistersInRange) (k₁ : Nat)
    {k₂ : Nat} (h₂ : 1 ≤ k₂) : ∃ r₁ vm₁ r₂ vm₂, vm.runForSlice k₁ = some (r₁, vm₁)
      ∧ vm₁.runForSlice k₂ = some (r₂, vm₂) ∧ vm.runForSlice (k₁ + k₂) = some (r₁ + r₂, vm₂) := by
  obtain ⟨⟨r₁, vm₁⟩, hrun₁⟩ := exists_runForSlice hregs k₁
  have hregs₁ : vm₁.program.RegistersInRange := by
    rwa [(sameProgram_runForSlice hrun₁).program_eq]
  obtain ⟨⟨r₂, vm₂⟩, hrun₂⟩ := exists_runForSlice hregs₁ k₂
  refine ⟨r₁, vm₁, r₂, vm₂, hrun₁, hrun₂, ?_⟩
  rw [runForSlice_add vm h₂, hrun₁, Option.bind_some, hrun₂, Option.map_some]

/-- The theorem at a split right before the division by zero. -/
theorem runForSlice_split_dividesByZero :
    ∃ r₁ vm₁ r₂ vm₂, (create { name := [1] } dividesByZero).runForSlice 1 = some (r₁, vm₁)
      ∧ vm₁.runForSlice 2 = some (r₂, vm₂)
      ∧ (create { name := [1] } dividesByZero).runForSlice (1 + 2) = some (r₁ + r₂, vm₂) := by
  have hregs : (create { name := [1] } dividesByZero).program.RegistersInRange := by
    show dividesByZero.RegistersInRange
    decide
  exact runForSlice_split hregs 1 (by decide)

end VirtualMachine

end VmmShowcase
