import VmmShowcase.Memory.Translation
import VmmShowcase.Vm.Stepping

/-! # The machine a guest sees

What a virtual machine is for: a processor state and a paged memory on which a program's
instructions act. This machine has no TLB, no life-cycle status and no name; an instruction takes
it to another state or stops it for a reason. `VirtualMachine` implements it: instruction by
instruction and slice by slice it retires what the guest machine retires, and its status says how
the guest machine stopped. -/

namespace VmmShowcase

/-- The state a guest can observe. -/
structure GuestState where
  cpu : CpuState
  memory : PageWalkMemory

/-- Why an instruction does not retire. -/
inductive StopReason where
  | halted
  | migrating (target : CString)
  | faulted (fault : VmFault)

/-- What an instruction does. -/
inductive Effect where
  | retired (g : GuestState)
  | stopped (reason : StopReason)

/-- The status that tells a stop reason. -/
def StopReason.status : StopReason → VmStatus
  | .halted => .halted
  | .migrating _ => .blocked
  | .faulted _ => .faulted

/-- No stop reason looks like a running machine. -/
theorem StopReason.status_ne_running (reason : StopReason) : reason.status ≠ .running := by
  cases reason <;> simp [status]

namespace GuestState

/-- Retire an instruction that leaves the processor in state `cpu`. -/
def retire (g : GuestState) (cpu : CpuState) : Effect := .retired { g with cpu := cpu.advance }

/-- Write a register and retire. -/
def retireReg (g : GuestState) (idx : Int) (value : Word) : Option Effect :=
  (g.cpu.setReg idx value).map g.retire

/-- The effect of an instruction; `none` when a register operand names no register. -/
def exec (g : GuestState) (inst : Instruction) : Option Effect :=
  match inst.opcode with
  | .li => g.retireReg inst.rd inst.imm
  | .add => do g.retireReg inst.rd ((← g.cpu.reg inst.rs) + (← g.cpu.reg inst.rt))
  | .addi => do g.retireReg inst.rd ((← g.cpu.reg inst.rs) + inst.imm)
  | .sub => do g.retireReg inst.rd ((← g.cpu.reg inst.rs) - (← g.cpu.reg inst.rt))
  | .mul => do g.retireReg inst.rd ((← g.cpu.reg inst.rs) * (← g.cpu.reg inst.rt))
  | .div => do
      let divisor ← g.cpu.reg inst.rt
      if divisor = 0 then return .stopped (.faulted divideByZero)
      let dividend ← g.cpu.reg inst.rs
      return g.retire { g.cpu with lo := dividend.sdiv divisor, hi := dividend.srem divisor }
  | .lw =>
      match g.memory.readWord inst.imm with
      | .error fault => some (.stopped (.faulted fault))
      | .ok value => g.retireReg inst.rd value
  | .sw => do
      let value ← g.cpu.reg inst.rs
      match g.memory.writeWord inst.imm value with
      | .error fault => return .stopped (.faulted fault)
      | .ok bytes => return { g with memory := { g.memory with bytes := bytes } }.retire g.cpu
  | .dumpProcessorState | .snapshot => some (g.retire g.cpu)
  | .migrate => some (.stopped (.migrating inst.label))
  | .halt => some (.stopped .halted)
  | .and | .or | .xor | .sll | .srl | .invalid => some (.stopped (.faulted illegalOpcode))

/-- The instruction a program has at the program counter. -/
def fetch (g : GuestState) (program : Program) : Option Instruction :=
  program.insts[g.cpu.pc.toNat]?

/-- One round of a slice: the state, with the status `running` until the guest stops. -/
def sliceStep (program : Program) (s : GuestState × VmStatus) :
    Option (Bool × (GuestState × VmStatus)) :=
  match s.1.fetch program with
  | none => some (false, s)
  | some inst =>
      (s.1.exec inst).map fun
        | .retired g => (true, (g, .running))
        | .stopped reason => (false, (s.1, reason.status))

/-- The status after a slice. -/
def settledStatus (program : Program) (s : GuestState × VmStatus) : VmStatus :=
  if program.size ≤ s.1.cpu.pc.toNat then .halted
  else if s.2 = .running then .ready
  else s.2

/-- Run a guest for a slice: the number of instructions retired, and how and where it is left. -/
def slice (program : Program) (g : GuestState) (k : Nat) : Option (Nat × VmStatus × GuestState) :=
  (BudgetedRun.run (sliceStep program) k (g, .running)).map
    fun p => (p.1, settledStatus program p.2, p.2.1)

/-- The guest stops where it is, and its status says so. -/
def StopsAs (program : Program) (g : GuestState) (status : VmStatus) : Prop :=
  (g.fetch program = none ∧ status = .halted)
    ∨ ∃ inst reason, g.fetch program = some inst ∧ g.exec inst = some (.stopped reason)
      ∧ reason.status = status

/-- A guest that stops where it is makes no progress in a slice. -/
theorem slice_of_stopsAs {program : Program} {g : GuestState} {status : VmStatus}
    (h : g.StopsAs program status) {k : Nat} (hk : 1 ≤ k) :
    g.slice program k = some (0, status, g) := by
  obtain ⟨k, rfl⟩ := Nat.exists_eq_add_of_le' hk
  rw [slice]
  rcases h with ⟨hf, rfl⟩ | ⟨inst, reason, hf, hexec, rfl⟩
  · have hstep : sliceStep program (g, .running) = some (false, (g, .running)) := by
      simp [sliceStep, hf]
    have hpc : program.size ≤ g.cpu.pc.toNat := List.getElem?_eq_none_iff.mp hf
    rw [BudgetedRun.run_succ_stop hstep, Option.map_some, settledStatus, if_pos hpc]
  · have hstep : sliceStep program (g, .running) = some (false, (g, reason.status)) := by
      simp [sliceStep, hf, hexec]
    have hpc : ¬ program.size ≤ g.cpu.pc.toNat := by
      intro hle
      rw [fetch, List.getElem?_eq_none_iff.mpr hle] at hf
      exact absurd hf (by simp)
    rw [BudgetedRun.run_succ_stop hstep, Option.map_some, settledStatus, if_neg hpc,
      if_neg reason.status_ne_running]

/-- A round that advances leaves the guest running. -/
theorem sliceStep_advance {program : Program} {s s' : GuestState × VmStatus}
    (h : sliceStep program s = some (true, s')) : s'.2 = .running := by
  rw [sliceStep] at h
  cases hf : s.1.fetch program with
  | none => rw [hf] at h; cases h
  | some inst =>
      simp only [hf, Option.map_eq_some_iff] at h
      obtain ⟨e, -, heq⟩ := h
      cases e with
      | retired g => cases heq; rfl
      | stopped reason => cases heq

/-- A round that stops leaves the guest where it is, with the status that tells why. -/
theorem sliceStep_stop {program : Program} {s s' : GuestState × VmStatus}
    (h : sliceStep program s = some (false, s')) :
    (s.1.fetch program = none ∧ s' = s)
      ∨ ∃ inst reason, s.1.fetch program = some inst ∧ s.1.exec inst = some (.stopped reason)
        ∧ s' = (s.1, reason.status) := by
  rw [sliceStep] at h
  cases hf : s.1.fetch program with
  | none => rw [hf] at h; cases h; exact .inl ⟨rfl, rfl⟩
  | some inst =>
      simp only [hf, Option.map_eq_some_iff] at h
      obtain ⟨e, hexec, heq⟩ := h
      cases e with
      | retired g => cases heq
      | stopped reason => cases heq; exact .inr ⟨inst, reason, rfl, hexec, rfl⟩

/-- A guest that is left halted or faulted stops where it is left. -/
theorem stopsAs_of_slice {program : Program} {g g' : GuestState} {k r : Nat} {status : VmStatus}
    (h : g.slice program k = some (r, status, g')) (hdone : status.Done) :
    g'.StopsAs program status := by
  rw [slice, Option.map_eq_some_iff] at h
  obtain ⟨⟨r, s⟩, hrun, heq⟩ := h
  cases heq
  by_cases hpc : program.size ≤ s.1.cpu.pc.toNat
  · -- past the program the status is halted, whatever the last round left
    refine .inl ⟨List.getElem?_eq_none_iff.mpr hpc, ?_⟩
    rw [settledStatus, if_pos hpc]
  rw [settledStatus, if_neg hpc] at hdone ⊢
  have hadvance : ∀ s s' : GuestState × VmStatus, s.2 = .running →
      sliceStep program s = some (true, s') → s'.2 = .running := fun _ _ _ => sliceStep_advance
  rcases BudgetedRun.run_cases (fun s => s.2 = .running) hadvance rfl hrun with
    ⟨-, t, -, hstop⟩ | ⟨-, hrunning⟩
  · rcases sliceStep_stop hstop with ⟨hf, rfl⟩ | ⟨inst, reason, hf, hexec, rfl⟩
    · exact absurd (List.getElem?_eq_none_iff.mp hf) hpc
    · exact .inr ⟨inst, reason, hf, hexec, (if_neg reason.status_ne_running).symm⟩
  · -- a slice that used its budget up leaves the guest ready
    rw [if_pos hrunning] at hdone
    exact absurd hdone (by decide)

/-- An instruction that retires keeps the number of bytes. -/
theorem length_of_exec {g g' : GuestState} {inst : Instruction}
    (h : g.exec inst = some (.retired g')) : g'.memory.bytes.length = g.memory.bytes.length := by
  have hreg : ∀ {idx value}, g.retireReg idx value = some (.retired g') →
      g'.memory.bytes.length = g.memory.bytes.length := by
    intro idx value hretire
    rw [retireReg, Option.map_eq_some_iff] at hretire
    obtain ⟨cpu, -, heq⟩ := hretire
    cases heq
    rfl
  cases hop : inst.opcode with
  | li =>
      simp only [exec, hop] at h
      exact hreg h
  | add | sub | mul =>
      simp only [exec, hop, Option.bind_eq_bind, Option.bind_eq_some_iff] at h
      obtain ⟨a, -, b, -, hretire⟩ := h
      exact hreg hretire
  | addi =>
      simp only [exec, hop, Option.bind_eq_bind, Option.bind_eq_some_iff] at h
      obtain ⟨a, -, hretire⟩ := h
      exact hreg hretire
  | div =>
      simp only [exec, hop, Option.bind_eq_bind, Option.bind_eq_some_iff] at h
      obtain ⟨divisor, -, h⟩ := h
      split at h
      · cases h
      · rw [Option.bind_eq_some_iff] at h
        obtain ⟨dividend, -, heq⟩ := h
        cases heq
        rfl
  | lw =>
      simp only [exec, hop] at h
      split at h
      · cases h
      · exact hreg h
  | sw =>
      simp only [exec, hop, Option.bind_eq_bind, Option.bind_eq_some_iff] at h
      obtain ⟨value, -, h⟩ := h
      split at h
      · cases h
      · next hwrite =>
          cases h
          exact PageWalkMemory.length_of_writeWord hwrite
  | dumpProcessorState | snapshot =>
      simp only [exec, hop] at h
      cases h
      rfl
  | migrate | halt | and | or | xor | sll | srl | invalid =>
      simp only [exec, hop] at h
      cases h

/-- A slice keeps the number of bytes. -/
theorem length_of_slice {program : Program} {g g' : GuestState} {k r : Nat} {status : VmStatus}
    (h : g.slice program k = some (r, status, g')) :
    g'.memory.bytes.length = g.memory.bytes.length := by
  rw [slice, Option.map_eq_some_iff] at h
  obtain ⟨⟨r, s⟩, hrun, heq⟩ := h
  cases heq
  refine BudgetedRun.run_invariant
    (fun s : GuestState × VmStatus => s.1.memory.bytes.length = g.memory.bytes.length) ?_ rfl hrun
  intro s b s' hs hstep
  cases b with
  | false =>
      rcases sliceStep_stop hstep with ⟨-, rfl⟩ | ⟨inst, reason, -, -, rfl⟩
      · exact hs
      · exact hs
  | true =>
      rw [sliceStep] at hstep
      cases hf : s.1.fetch program with
      | none => rw [hf] at hstep; cases hstep
      | some inst =>
          simp only [hf, Option.map_eq_some_iff] at hstep
          obtain ⟨e, hexec, heq⟩ := hstep
          cases e with
          | retired g => cases heq; exact (length_of_exec hexec).trans hs
          | stopped reason => cases heq
/-- Run a guest for a slice, as a component: the reply shows the count, the status, the processor
and the bytes; after undefined behaviour there is no reply. -/
def call (program : Program) (g : Option GuestState) (k : Nat) :
    Option (Nat × VmStatus × CpuState × List Byte) × Option GuestState :=
  match g.bind fun g => g.slice program k with
  | none => (none, none)
  | some (r, status, g) => (some (r, status, g.cpu, g.memory.bytes), some g)

end GuestState

namespace VirtualMachine

/-- The guest state of a machine. -/
def guest (vm : VirtualMachine) : GuestState := ⟨vm.cpu, vm.memory.walk⟩

@[simp] theorem guest_cpu (vm : VirtualMachine) : vm.guest.cpu = vm.cpu := rfl

@[simp] theorem guest_memory (vm : VirtualMachine) : vm.guest.memory = vm.memory.walk := rfl

/-- The machine after an effect: what `ExecuteOne` returns and leaves, up to the TLB. -/
structure Implements (vm : VirtualMachine) (p : Nat × VirtualMachine) (g : GuestState)
    (n : Nat) (status : VmStatus) : Prop where
  count_eq : p.1 = n
  guest_eq : p.2.guest = g
  coherent : p.2.memory.Coherent
  status_eq : p.2.status = status
  program_eq : p.2.program = vm.program

/-- `p` is what `ExecuteOne` makes of `vm` for an instruction with effect `e`. -/
def Realizes (vm : VirtualMachine) (p : Nat × VirtualMachine) : Effect → Prop
  | .retired g => vm.Implements p g 1 .running
  | .stopped reason => vm.Implements p vm.guest 0 reason.status

/-- Writing a register and retiring realizes the guest's effect. -/
theorem realizes_retireReg {vm : VirtualMachine} {memory : VirtualMemory}
    (hm : vm.memory.RefillOf memory) (idx : Int) (value : Word) :
    Option.Rel vm.Realizes
      ((vm.cpu.setReg idx value).bind fun cpu => some ({ vm with memory := memory }.retire cpu))
      (vm.guest.retireReg idx value) := by
  rw [GuestState.retireReg, guest]
  cases vm.cpu.setReg idx value with
  | none => exact .none
  | some cpu =>
      refine .some ⟨rfl, ?_, hm.coherent, rfl, rfl⟩
      show GuestState.mk cpu.advance memory.walk = GuestState.mk cpu.advance vm.memory.walk
      rw [hm.walk_eq]

/-- **`ExecuteOne` implements the guest machine.** With a coherent TLB it has defined behaviour
exactly where the guest machine has, and realizes its effect. -/
theorem executeOne_realizes {vm : VirtualMachine} (h : vm.memory.Coherent) (inst : Instruction) :
    Option.Rel vm.Realizes (vm.executeOne inst) (vm.guest.exec inst) := by
  have hrefl : vm.memory.RefillOf vm.memory := ⟨rfl, rfl, h⟩
  have hreg : ∀ idx, vm.guest.cpu.reg idx = vm.cpu.reg idx := fun _ => rfl
  -- both sides read the same registers; only loads and stores go through the TLB
  cases hop : inst.opcode with
  | li =>
      simp only [executeOne, GuestState.exec, hop]
      exact realizes_retireReg hrefl inst.rd inst.imm
  | add | sub | mul =>
      simp only [executeOne, GuestState.exec, hop, hreg]
      cases vm.cpu.reg inst.rs with
      | none => exact .none
      | some a =>
          cases vm.cpu.reg inst.rt with
          | none => exact .none
          | some b => exact realizes_retireReg hrefl inst.rd _
  | addi =>
      simp only [executeOne, GuestState.exec, hop, hreg]
      cases vm.cpu.reg inst.rs with
      | none => exact .none
      | some a => exact realizes_retireReg hrefl inst.rd _
  | div =>
      simp only [executeOne, GuestState.exec, hop, hreg]
      cases vm.cpu.reg inst.rt with
      | none => exact .none
      | some divisor =>
          simp only [Option.bind_eq_bind, Option.bind_some]
          by_cases hdiv : divisor = 0
          · rw [if_pos hdiv, if_pos hdiv]
            exact .some ⟨rfl, rfl, h, rfl, rfl⟩
          · rw [if_neg hdiv, if_neg hdiv]
            cases vm.cpu.reg inst.rs with
            | none => exact .none
            | some dividend => exact .some ⟨rfl, rfl, h, rfl, rfl⟩
  | lw =>
      simp only [executeOne, GuestState.exec, hop]
      obtain ⟨hreply, hrefill⟩ := VirtualMemory.readWord_walk h inst.imm
      rw [guest_memory, ← hreply]
      generalize vm.memory.readWord inst.imm = p at hrefill ⊢
      obtain ⟨fault | value, memory⟩ := p
      · refine .some ⟨rfl, ?_, hrefill.coherent, rfl, rfl⟩
        exact congrArg (GuestState.mk vm.cpu) hrefill.walk_eq
      · exact realizes_retireReg hrefill inst.rd value
  | sw =>
      simp only [executeOne, GuestState.exec, hop, hreg]
      cases vm.cpu.reg inst.rs with
      | none => exact .none
      | some value =>
          simp only [Option.bind_eq_bind, Option.bind_some]
          have hwrite := VirtualMemory.writeWord_walk h inst.imm value
          rw [guest_memory]
          generalize vm.memory.writeWord inst.imm value = p at hwrite ⊢
          generalize vm.memory.walk.writeWord inst.imm value = written at hwrite ⊢
          obtain ⟨reply, memory⟩ := p
          rcases written with fault | bytes
          · obtain ⟨rfl, hrefill⟩ := hwrite
            refine .some ⟨rfl, ?_, hrefill.coherent, rfl, rfl⟩
            exact congrArg (GuestState.mk vm.cpu) hrefill.walk_eq
          · obtain ⟨rfl, hrefill⟩ := hwrite
            refine .some ⟨rfl, ?_, hrefill.coherent, rfl, rfl⟩
            exact congrArg (GuestState.mk vm.cpu.advance) hrefill.walk_eq
  | dumpProcessorState | snapshot | migrate | halt | and | or | xor | sll | srl | invalid =>
      simp only [executeOne, GuestState.exec, hop]
      exact .some ⟨rfl, rfl, h, rfl, rfl⟩

/-! ## Slices -/

/-- A machine in a slice and the guest it implements. -/
structure SliceOf (program : Program) (vm : VirtualMachine) (s : GuestState × VmStatus) : Prop where
  program_eq : vm.program = program
  coherent : vm.memory.Coherent
  guest_eq : vm.guest = s.1
  status_eq : vm.status = s.2

/-- One round of a slice is a round of the guest's slice. -/
theorem SliceOf.sliceStep {program : Program} {vm : VirtualMachine} {s : GuestState × VmStatus}
    (h : SliceOf program vm s) :
    Option.Rel (fun p q => p.1 = q.1 ∧ SliceOf program p.2 q.2) vm.sliceStep
      (GuestState.sliceStep program s) := by
  have hfetch : s.1.fetch program = vm.fetch := by
    rw [GuestState.fetch, fetch, ← h.guest_eq, h.program_eq]
    rfl
  rw [VirtualMachine.sliceStep, GuestState.sliceStep, hfetch]
  cases hf : vm.fetch with
  | none => exact .some ⟨rfl, h⟩
  | some inst =>
      have hexec := executeOne_realizes h.coherent inst
      rw [h.guest_eq] at hexec
      rcases BudgetedRun.rel_cases hexec with ⟨he, hg⟩ | ⟨p, effect, he, hg, hp⟩
      · simp only [he, hg, Option.map_none]
        exact .none
      simp only [he, hg, Option.map_some]
      cases effect with
      | retired g =>
          obtain ⟨hcount, hguest, hcoh, hstatus, hprog⟩ := hp
          exact .some ⟨by simp [hcount], hprog.trans h.program_eq, hcoh, hguest, hstatus⟩
      | stopped reason =>
          obtain ⟨hcount, hguest, hcoh, hstatus, hprog⟩ := hp
          exact .some ⟨by simp [hcount], hprog.trans h.program_eq, hcoh,
            hguest.trans h.guest_eq, hstatus⟩

/-- A machine after a slice and its guest after the slice. -/
structure AfterSlice (program : Program) (p : Nat × VirtualMachine)
    (q : Nat × VmStatus × GuestState) : Prop where
  count_eq : p.1 = q.1
  status_eq : p.2.status = q.2.1
  guest_eq : p.2.guest = q.2.2
  program_eq : p.2.program = program
  coherent : p.2.memory.Coherent

/-- Settling a machine settles its guest's status and changes nothing else a guest sees. -/
theorem SliceOf.settle {program : Program} {vm : VirtualMachine} {s : GuestState × VmStatus}
    (h : SliceOf program vm s) (n : Nat) :
    AfterSlice program (n, vm.settle) (n, GuestState.settledStatus program s, s.1) := by
  obtain ⟨g, status⟩ := s
  obtain ⟨hprog, hcoh, hguest, hstatus⟩ := h
  subst hprog hguest hstatus
  rw [VirtualMachine.settle, GuestState.settledStatus]
  simp only [guest_cpu]
  by_cases hpc : vm.program.size ≤ vm.cpu.pc.toNat
  · rw [if_pos hpc, if_pos hpc]
    exact ⟨rfl, rfl, rfl, rfl, hcoh⟩
  · rw [if_neg hpc, if_neg hpc]
    by_cases hrun : vm.status = .running
    · rw [if_pos hrun, if_pos hrun]
      exact ⟨rfl, rfl, rfl, rfl, hcoh⟩
    · rw [if_neg hrun, if_neg hrun]
      exact ⟨rfl, rfl, rfl, rfl, hcoh⟩

/-- **`RunForSlice` implements the guest's slice**, for a machine that is neither halted nor
faulted and whose TLB is coherent. -/
theorem runForSlice_guest {vm : VirtualMachine} (hcoh : vm.memory.Coherent)
    (hlive : ¬ vm.status.Done) (k : Nat) :
    Option.Rel (AfterSlice vm.program) (vm.runForSlice k) (vm.guest.slice vm.program k) := by
  have hstart : SliceOf vm.program vm.start (vm.guest, .running) := ⟨rfl, hcoh, rfl, rfl⟩
  have hrun := BudgetedRun.run_simulates (SliceOf vm.program) (fun _ _ h => h.sliceStep) k hstart
  rw [runForSlice_of_not_done hlive, GuestState.slice]
  rcases BudgetedRun.rel_cases hrun with ⟨hu, hs⟩ | ⟨⟨r, u⟩, ⟨r', s⟩, hu, hs, hr, hslice⟩
  · rw [hu, hs]
    exact .none
  · obtain rfl : r = r' := hr
    rw [hu, hs]
    exact .some (hslice.settle r)

/-! ## Consistent machines -/

/-- A machine whose TLB is coherent and whose status, when it is halted or faulted, tells what the
instruction at the program counter does. -/
structure Consistent (vm : VirtualMachine) : Prop where
  coherent : vm.memory.Coherent
  stopsAs : vm.status.Done → vm.guest.StopsAs vm.program vm.status

/-- A machine that is neither halted nor faulted only needs a coherent TLB. -/
theorem consistent_of_not_done {vm : VirtualMachine} (hcoh : vm.memory.Coherent)
    (hlive : ¬ vm.status.Done) : vm.Consistent := ⟨hcoh, fun h => absurd h hlive⟩

/-- For a consistent machine a slice is the guest's slice, whatever its status. -/
theorem Consistent.runForSlice {vm : VirtualMachine} (h : vm.Consistent) {k : Nat} (hk : 1 ≤ k) :
    Option.Rel (AfterSlice vm.program) (vm.runForSlice k) (vm.guest.slice vm.program k) := by
  by_cases hdone : vm.status.Done
  · -- the machine does not run, and its guest would stop where it is
    rw [runForSlice_of_done hdone, GuestState.slice_of_stopsAs (h.stopsAs hdone) hk]
    exact .some ⟨rfl, rfl, rfl, rfl, h.coherent⟩
  · exact runForSlice_guest h.coherent hdone k

/-- A slice of a live machine is its guest's slice. -/
theorem slice_of_runForSlice {vm vm' : VirtualMachine} (hcoh : vm.memory.Coherent)
    (hlive : ¬ vm.status.Done) {k r : Nat} (hrun : vm.runForSlice k = some (r, vm')) :
    vm.guest.slice vm.program k = some (r, vm'.status, vm'.guest) ∧ vm'.memory.Coherent
      ∧ vm'.program = vm.program := by
  have hrel := runForSlice_guest hcoh hlive k
  rw [hrun] at hrel
  rcases BudgetedRun.rel_cases hrel with ⟨hu, -⟩ | ⟨p, ⟨r', status, g⟩, hu, hs, hafter⟩
  · cases hu
  cases hu
  obtain ⟨rfl, rfl, rfl, hprog, hcoh'⟩ := hafter
  exact ⟨hs, hcoh', hprog⟩

/-- Slices keep a machine consistent. -/
theorem Consistent.after_runForSlice {vm vm' : VirtualMachine} (h : vm.Consistent) {k r : Nat}
    (hrun : vm.runForSlice k = some (r, vm')) : vm'.Consistent := by
  by_cases hdone : vm.status.Done
  · rw [runForSlice_of_done hdone] at hrun
    cases hrun
    exact h
  · obtain ⟨hs, hcoh, hprog⟩ := slice_of_runForSlice h.coherent hdone hrun
    refine ⟨hcoh, fun hdone' => ?_⟩
    rw [hprog]
    exact GuestState.stopsAs_of_slice hs hdone'

/-- A slice of a consistent machine keeps the number of its bytes. -/
theorem Consistent.length_bytes {vm vm' : VirtualMachine} (h : vm.Consistent) {k r : Nat}
    (hrun : vm.runForSlice k = some (r, vm')) :
    vm'.memory.bytes.length = vm.memory.bytes.length := by
  by_cases hdone : vm.status.Done
  · rw [runForSlice_of_done hdone] at hrun
    cases hrun
    rfl
  · exact GuestState.length_of_slice (slice_of_runForSlice h.coherent hdone hrun).1

/-- Run a machine for a slice, as a component. -/
def call (vm : Option VirtualMachine) (k : Nat) :
    Option (Nat × VmStatus × CpuState × List Byte) × Option VirtualMachine :=
  match vm.bind fun vm => vm.runForSlice k with
  | none => (none, none)
  | some (r, vm) => (some (r, vm.status, vm.cpu, vm.memory.bytes), some vm)

/-- **A consistent machine shows what its guest does.** Slice by slice, count, status, processor
and bytes are those of the guest machine. -/
theorem Consistent.trace_eq {vm : VirtualMachine} (h : vm.Consistent) {ks : List Nat}
    (hks : ∀ k ∈ ks, 1 ≤ k) :
    Component.trace call (some vm) ks
      = Component.trace (GuestState.call vm.program) (some vm.guest) ks := by
  refine Component.trace_eq_of_bisimulation
    (Option.Rel fun u g => u.Consistent ∧ u.program = vm.program ∧ u.guest = g)
    (fun k => 1 ≤ k) ?_ (.some ⟨h, rfl, rfl⟩) hks
  rintro u g k hk hug
  rcases BudgetedRun.rel_cases hug with ⟨rfl, rfl⟩ | ⟨u, g, rfl, rfl, hu, hprog, rfl⟩
  · exact ⟨rfl, .none⟩
  have hrel := hu.runForSlice hk
  rw [hprog] at hrel
  rw [call, GuestState.call, Option.bind_some, Option.bind_some]
  rcases BudgetedRun.rel_cases hrel with ⟨hr, hs⟩ | ⟨⟨r, u'⟩, ⟨r', status, g'⟩, hr, hs, hafter⟩
  · rw [hr, hs]
    exact ⟨rfl, .none⟩
  · have hcons := hu.after_runForSlice hr
    obtain ⟨hcount, hstatus, hguest, hprog', -⟩ := hafter
    simp only at hcount hstatus hguest hprog'
    subst hcount hstatus hguest
    rw [hr, hs]
    exact ⟨rfl, .some ⟨hcons, hprog', rfl⟩⟩

end VirtualMachine

end VmmShowcase
