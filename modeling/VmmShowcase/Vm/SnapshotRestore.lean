import VmmShowcase.Vm.GuestState

/-! # Snapshots are complete

A snapshot holds the processor, the page table and the bytes; it leaves out the TLB, the status
and the last fault. Restoring it still gives back a machine that no sequence of slices tells from
the source: the TLB of a reachable machine is coherent, and a halted or faulted machine that is
restarted stops again where it stopped, with the same status and no side effect. What `Restore` leaves
of the machine it overwrites is the last fault and the pending migration. -/

namespace VmmShowcase

namespace GuestState

/-- The ways an instruction stops a guest. -/
inductive Stops (g : GuestState) (inst : Instruction) : StopReason → Prop where
  | halt (hop : inst.opcode = .halt) : Stops g inst .halted
  | migrate (hop : inst.opcode = .migrate) : Stops g inst (.migrating inst.label)
  | divideByZero (hop : inst.opcode = .div) (hzero : g.cpu.reg inst.rt = some 0) :
      Stops g inst (.faulted divideByZero)
  | load {fault : VmFault} (hop : inst.opcode = .lw)
      (hfault : g.memory.translate inst.imm = .error fault) : Stops g inst (.faulted fault)
  | store {fault : VmFault} (hop : inst.opcode = .sw) {value : Word}
      (hvalue : g.cpu.reg inst.rs = some value)
      (hfault : g.memory.translate inst.imm = .error fault) : Stops g inst (.faulted fault)
  | illegal (hop : inst.opcode ∈ [.and, .or, .xor, .sll, .srl, .invalid]) :
      Stops g inst (.faulted illegalOpcode)

/-- Writing a register does not stop a guest. -/
theorem retireReg_ne_stopped (g : GuestState) (idx : Int) (value : Word) (reason : StopReason) :
    g.retireReg idx value ≠ some (.stopped reason) := by
  intro h
  rw [retireReg, Option.map_eq_some_iff] at h
  obtain ⟨cpu, -, heq⟩ := h
  cases heq

/-- **Inversion of a stop.** -/
theorem exec_eq_stopped_iff {g : GuestState} {inst : Instruction} {reason : StopReason} :
    g.exec inst = some (.stopped reason) ↔ g.Stops inst reason := by
  constructor
  · intro h
    -- an opcode that ends in a register write does not stop
    cases hop : inst.opcode with
    | li =>
        simp only [exec, hop] at h
        exact absurd h (g.retireReg_ne_stopped _ _ _)
    | add | sub | mul =>
        simp only [exec, hop, Option.bind_eq_bind, Option.bind_eq_some_iff] at h
        obtain ⟨a, -, b, -, h⟩ := h
        exact absurd h (g.retireReg_ne_stopped _ _ _)
    | addi =>
        simp only [exec, hop, Option.bind_eq_bind, Option.bind_eq_some_iff] at h
        obtain ⟨a, -, h⟩ := h
        exact absurd h (g.retireReg_ne_stopped _ _ _)
    | div =>
        simp only [exec, hop, Option.bind_eq_bind, Option.bind_eq_some_iff] at h
        obtain ⟨divisor, hdivisor, h⟩ := h
        split at h
        · rename_i hzero
          cases h
          exact .divideByZero hop (by rw [hdivisor, hzero])
        · rw [Option.bind_eq_some_iff] at h
          obtain ⟨dividend, -, heq⟩ := h
          cases heq
    | lw =>
        simp only [exec, hop, PageWalkMemory.readWord] at h
        cases htr : g.memory.translate inst.imm with
        | error fault =>
            rw [htr] at h
            cases h
            exact .load hop htr
        | ok paddr =>
            simp only [htr, Except.map] at h
            exact absurd h (g.retireReg_ne_stopped _ _ _)
    | sw =>
        simp only [exec, hop, Option.bind_eq_bind, Option.bind_eq_some_iff,
          PageWalkMemory.writeWord] at h
        obtain ⟨value, hvalue, h⟩ := h
        cases htr : g.memory.translate inst.imm with
        | error fault =>
            rw [htr] at h
            cases h
            exact .store hop hvalue htr
        | ok paddr => rw [htr] at h; cases h
    | dumpProcessorState | snapshot =>
        simp only [exec, hop] at h
        cases h
    | migrate =>
        simp only [exec, hop] at h
        cases h
        exact .migrate hop
    | halt =>
        simp only [exec, hop] at h
        cases h
        exact .halt hop
    | and | or | xor | sll | srl | invalid =>
        simp only [exec, hop] at h
        cases h
        exact .illegal (by simp [hop])
  · intro h
    cases h with
    | halt hop => simp only [exec, hop]
    | migrate hop => simp only [exec, hop]
    | divideByZero hop hzero => simp [exec, hop, hzero]
    | load hop hfault => simp [exec, hop, PageWalkMemory.readWord, hfault, Except.map]
    | store hop hvalue hfault =>
        simp [exec, hop, hvalue, PageWalkMemory.writeWord, hfault, Except.map]
    | illegal hop =>
        simp only [List.mem_cons, List.not_mem_nil, or_false] at hop
        rcases hop with hop | hop | hop | hop | hop | hop <;> simp only [exec, hop]

/-- A guest stops in the same way over any memory on which the same addresses fault. -/
theorem Stops.of_translate {g g' : GuestState} {inst : Instruction} {reason : StopReason}
    (h : g.Stops inst reason) (hcpu : g'.cpu = g.cpu)
    (htr : g'.memory.translate inst.imm = g.memory.translate inst.imm) : g'.Stops inst reason := by
  cases h with
  | halt hop => exact .halt hop
  | migrate hop => exact .migrate hop
  | divideByZero hop hzero => exact .divideByZero hop (by rw [hcpu, hzero])
  | load hop hfault => exact .load hop (by rw [htr, hfault])
  | store hop hvalue hfault => exact .store hop (by rw [hcpu, hvalue]) (by rw [htr, hfault])
  | illegal hop => exact .illegal hop

/-- Changing bytes, but neither their number nor the page table, does not change where a guest
stops. -/
theorem StopsAs.of_sameLayout {program : Program} {g g' : GuestState} {status : VmStatus}
    (h : g.StopsAs program status) (hcpu : g'.cpu = g.cpu)
    (htable : g'.memory.pageTable = g.memory.pageTable)
    (hlen : g'.memory.bytes.length = g.memory.bytes.length) : g'.StopsAs program status := by
  have hfetch : g'.fetch program = g.fetch program := by rw [fetch, hcpu, fetch]
  rcases h with ⟨hf, hstatus⟩ | ⟨inst, reason, hf, hexec, hstatus⟩
  · exact .inl ⟨hfetch.trans hf, hstatus⟩
  · have hstops := exec_eq_stopped_iff.mp hexec
    have htr := PageWalkMemory.translate_congr htable hlen inst.imm
    exact .inr ⟨inst, reason, hfetch.trans hf,
      exec_eq_stopped_iff.mpr (hstops.of_translate hcpu htr), hstatus⟩

/-- A halted guest is halted over any memory. -/
theorem StopsAs.halted_of_cpu {program : Program} {g g' : GuestState}
    (h : g.StopsAs program .halted) (hcpu : g'.cpu = g.cpu) : g'.StopsAs program .halted := by
  have hfetch : g'.fetch program = g.fetch program := by rw [fetch, hcpu, fetch]
  rcases h with ⟨hf, -⟩ | ⟨inst, reason, hf, hexec, hstatus⟩
  · exact .inl ⟨hfetch.trans hf, rfl⟩
  · cases exec_eq_stopped_iff.mp hexec with
    | halt hop => exact .inr ⟨inst, .halted, hfetch.trans hf,
        exec_eq_stopped_iff.mpr (.halt hop), rfl⟩
    | migrate | divideByZero | load | store | illegal => cases hstatus

end GuestState

namespace VirtualMachine

/-! ## Reachable machines -/

/-- The machines the public interface leads to: from construction by slices, restored snapshots,
direct memory accesses, cleared migration intents, and pages mapped while the machine is not
faulted. -/
inductive Reachable : VirtualMachine → Prop where
  | create (config : VmConfig) (program : Program) : Reachable (create config program)
  | runForSlice {vm vm' : VirtualMachine} (h : Reachable vm) {k r : Nat}
      (hrun : vm.runForSlice k = some (r, vm')) : Reachable vm'
  | restore {vm : VirtualMachine} (h : Reachable vm) (snapshot : VmSnapshot) :
      Reachable (vm.restore snapshot)
  | readWord {vm : VirtualMachine} (h : Reachable vm) (virtualAddr : Word) :
      Reachable { vm with memory := (vm.memory.readWord virtualAddr).2 }
  | writeWord {vm : VirtualMachine} (h : Reachable vm) (virtualAddr value : Word) :
      Reachable { vm with memory := (vm.memory.writeWord virtualAddr value).2 }
  | mapPage {vm : VirtualMachine} (h : Reachable vm) (hstatus : vm.status ≠ .faulted)
      (virtualPage physicalPage : Word) :
      Reachable { vm with memory := vm.memory.mapPage virtualPage physicalPage }
  | clearMigrationIntent {vm : VirtualMachine} (h : Reachable vm) :
      Reachable vm.clearMigrationIntent

/-- A new machine is consistent. -/
theorem consistent_create (config : VmConfig) (program : Program) :
    (create config program).Consistent :=
  consistent_of_not_done (VirtualMemory.coherent_create _) (by show ¬ VmStatus.Done .ready; decide)

/-- A restored machine is consistent. -/
theorem consistent_restore (vm : VirtualMachine) (snapshot : VmSnapshot) :
    (vm.restore snapshot).Consistent :=
  consistent_of_not_done (VirtualMemory.coherent_restorePageTable _ _)
    (by show ¬ VmStatus.Done .ready; decide)

/-- Changing bytes, but neither their number nor the page table, keeps a machine consistent. -/
theorem Consistent.of_sameLayout {vm : VirtualMachine} (h : vm.Consistent) {memory : VirtualMemory}
    (hcoh : memory.Coherent) (htable : memory.pageTable = vm.memory.pageTable)
    (hlen : memory.bytes.length = vm.memory.bytes.length) :
    Consistent { vm with memory := memory } :=
  ⟨hcoh, fun hdone => (h.stopsAs hdone).of_sameLayout rfl htable hlen⟩

/-- Mapping a page keeps a machine consistent unless it is faulted. -/
theorem Consistent.mapPage {vm : VirtualMachine} (h : vm.Consistent) (hstatus : vm.status ≠ .faulted)
    (virtualPage physicalPage : Word) :
    Consistent { vm with memory := vm.memory.mapPage virtualPage physicalPage } := by
  refine ⟨h.coherent.mapPage virtualPage physicalPage, ?_⟩
  rintro (hhalted | hfaulted)
  · -- a halt does not look at memory
    have hhalted : vm.status = .halted := hhalted
    have hstops := h.stopsAs (.inl hhalted)
    show GuestState.StopsAs vm.program _ vm.status
    rw [hhalted] at hstops ⊢
    exact hstops.halted_of_cpu rfl
  · exact absurd hfaulted hstatus

/-- **Reachable machines are consistent.** -/
theorem Reachable.consistent {vm : VirtualMachine} (h : Reachable vm) : vm.Consistent := by
  induction h with
  | create config program => exact consistent_create config program
  | runForSlice _ hrun ih => exact ih.after_runForSlice hrun
  | restore _ snapshot _ => exact consistent_restore _ snapshot
  | readWord _ virtualAddr ih =>
      have hrefill := (VirtualMemory.readWord_walk ih.coherent virtualAddr).2
      exact ih.of_sameLayout hrefill.coherent hrefill.pageTable_eq (by rw [hrefill.bytes_eq])
  | @writeWord vm _ virtualAddr value ih =>
      -- a store changes bytes, but neither their number nor the page table
      have hwrite := VirtualMemory.writeWord_walk ih.coherent virtualAddr value
      cases hw : vm.memory.walk.writeWord virtualAddr value with
      | error fault =>
          rw [hw] at hwrite
          exact ih.of_sameLayout hwrite.2.coherent hwrite.2.pageTable_eq (by rw [hwrite.2.bytes_eq])
      | ok bytes =>
          rw [hw] at hwrite
          have hlen : bytes.length = vm.memory.bytes.length :=
            PageWalkMemory.length_of_writeWord hw
          refine ih.of_sameLayout hwrite.2.coherent hwrite.2.pageTable_eq ?_
          rw [hwrite.2.bytes_eq]
          exact hlen
  | mapPage _ hstatus virtualPage physicalPage ih =>
      exact ih.mapPage hstatus virtualPage physicalPage
  | clearMigrationIntent _ ih => exact ⟨ih.coherent, ih.stopsAs⟩

/-! ## Restoring a snapshot -/

/-- The guest of a restored machine is the snapshot's. -/
theorem guest_restore (vm : VirtualMachine) (snapshot : VmSnapshot) :
    (vm.restore snapshot).guest = ⟨snapshot.cpu, snapshot.memoryBytes, snapshot.pageTable⟩ := rfl

/-- Slices of a program whose register operands name registers have a reply to every call. -/
theorem none_notMem_trace {vm : VirtualMachine} (h : vm.program.RegistersInRange) (ks : List Nat) :
    none ∉ Component.trace call (some vm) ks := by
  induction ks generalizing vm with
  | nil => simp
  | cons k ks ih =>
      obtain ⟨⟨r, vm'⟩, hrun⟩ := exists_runForSlice h k
      have hcall : call (some vm) k
          = (some (r, vm'.status, vm'.cpu, vm'.memory.bytes), some vm') := by
        rw [call, Option.bind_some, hrun]
      have hprog := (sameProgram_runForSlice hrun).program_eq
      rw [Component.trace_cons, hcall, List.mem_cons, not_or]
      exact ⟨by simp, ih (hprog ▸ h)⟩

/-- **Snapshot and restore.** A machine restored from the snapshot of a reachable machine with the
same program answers every sequence of slices as the source does: same count, status, processor and
bytes, call by call. With register operands in range every call has an answer. -/
theorem restore_snapshot_bisimilar {vm u : VirtualMachine} (hvm : Reachable vm)
    (hprog : u.program = vm.program) {ks : List Nat} (hks : ∀ k ∈ ks, 1 ≤ k) :
    Component.trace call (some (u.restore vm.snapshot)) ks = Component.trace call (some vm) ks
      ∧ (vm.program.RegistersInRange → none ∉ Component.trace call (some vm) ks) := by
  have hguest : (u.restore vm.snapshot).guest = vm.guest := guest_restore u vm.snapshot
  have hprog' : (u.restore vm.snapshot).program = vm.program := hprog
  -- both machines show what their common guest does
  have htrace := (consistent_restore u vm.snapshot).trace_eq hks
  rw [hguest, hprog'] at htrace
  exact ⟨htrace.trans (hvm.consistent.trace_eq hks).symm, fun h => none_notMem_trace h ks⟩

/-- `li R1, 7; sw R1, 0; lw R2, 0; halt`. -/
def storeAndLoad : Program where
  insts := [{ opcode := .li, rd := 1, imm := 7 }, { opcode := .sw, rs := 1 },
    { opcode := .lw, rd := 2 }, { opcode := .halt }]
  size_lt := by decide

/-- The theorem at a machine snapshotted between a store and the load of the stored word, restored
into a machine with another memory. -/
theorem restore_snapshot_bisimilar_storeAndLoad :
    ∃ r vm, (create { name := [1] } storeAndLoad).runForSlice 2 = some (r, vm)
      ∧ Component.trace call
          (some ((create { name := [2], memoryBytes := 4 } storeAndLoad).restore vm.snapshot)) [1, 5]
        = Component.trace call (some vm) [1, 5] := by
  have hregs : (create { name := [1] } storeAndLoad).program.RegistersInRange := by
    show storeAndLoad.RegistersInRange
    decide
  obtain ⟨⟨r, vm⟩, hrun⟩ := exists_runForSlice hregs 2
  have hvm : Reachable vm := .runForSlice (.create _ _) hrun
  have hprog : storeAndLoad = vm.program := (sameProgram_runForSlice hrun).program_eq.symm
  have hks : ∀ k ∈ [1, 5], 1 ≤ k := by decide
  exact ⟨r, vm, hrun, (restore_snapshot_bisimilar hvm hprog hks).1⟩

/-! ## Restoring over a history -/

/-- What the public interface shows of a machine. -/
structure Observables where
  status : VmStatus
  cpu : CpuState
  bytes : List Byte
  pageTable : PageTable
  lastFault : VmFault
  pendingMigrationTarget : Option CString

/-- What the public interface shows of this machine. -/
def observables (vm : VirtualMachine) : Observables where
  status := vm.status
  cpu := vm.cpu
  bytes := vm.memory.bytes
  pageTable := vm.memory.pageTable
  lastFault := vm.lastFault
  pendingMigrationTarget := vm.pendingMigrationTarget

/-- The machine after a sequence of slices. -/
def afterSlices (vm : VirtualMachine) (ks : List Nat) : Option VirtualMachine :=
  ks.foldlM (fun vm k => (vm.runForSlice k).map Prod.snd) vm

/-- `Restore` leaves a machine that its configuration, its program and the snapshot determine, up to
the last fault and the pending migration: even the TLB does not tell where it comes from. -/
theorem restore_eq_restore_iff {vm₁ vm₂ : VirtualMachine} (hconfig : vm₁.config = vm₂.config)
    (hprog : vm₁.program = vm₂.program) (snapshot : VmSnapshot) :
    vm₁.restore snapshot = vm₂.restore snapshot
      ↔ vm₁.lastFault = vm₂.lastFault
        ∧ vm₁.pendingMigrationTarget = vm₂.pendingMigrationTarget := by
  constructor
  · intro h
    have hfault := congrArg VirtualMachine.lastFault h
    have hpending := congrArg VirtualMachine.pendingMigrationTarget h
    exact ⟨hfault, hpending⟩
  · rintro ⟨hfault, hpending⟩
    show VirtualMachine.mk _ _ _ _ _ _ _ = VirtualMachine.mk _ _ _ _ _ _ _
    rw [hconfig, hprog, hfault, hpending]
    rfl

/-- **What `Restore` does not erase.** Two machines of the same configuration and program that are
restored from one snapshot show the same after every sequence of slices, the empty one included,
exactly if they had the same last fault and the same pending migration before. -/
theorem restore_erases_history_iff {vm₁ vm₂ : VirtualMachine} (hconfig : vm₁.config = vm₂.config)
    (hprog : vm₁.program = vm₂.program) (snapshot : VmSnapshot) :
    (∀ ks, ((vm₁.restore snapshot).afterSlices ks).map observables
        = ((vm₂.restore snapshot).afterSlices ks).map observables)
      ↔ vm₁.lastFault = vm₂.lastFault
        ∧ vm₁.pendingMigrationTarget = vm₂.pendingMigrationTarget := by
  constructor
  · intro h
    have hnow := Option.some.inj (h [])
    exact ⟨congrArg Observables.lastFault hnow, congrArg Observables.pendingMigrationTarget hnow⟩
  · intro h ks
    rw [(restore_eq_restore_iff hconfig hprog snapshot).mpr h]

/-- `xor R0, R0, R0; halt`. -/
def illegalThenHalt : Program where
  insts := [{ opcode := .xor }, { opcode := .halt }]
  size_lt := by decide

/-- A new machine with that program. -/
def freshMachine : VirtualMachine := create { name := [0x76, 0x6d], memoryBytes := 0 } illegalThenHalt

/-- The same machine after its fault. -/
def faultedMachine : VirtualMachine :=
  { freshMachine with lastFault := illegalOpcode, status := .faulted }

/-- It is left by a slice. -/
theorem faultedMachine_reachable : Reachable faultedMachine :=
  @Reachable.runForSlice freshMachine faultedMachine (.create _ _) 1 0 rfl

/-- The theorem at two machines that differ in nothing that `Restore` forgets. -/
theorem restore_erases_history_iff_cleared :
    (∀ ks, ((freshMachine.restore freshMachine.snapshot).afterSlices ks).map observables
        = (({ freshMachine with status := .halted }.restore freshMachine.snapshot).afterSlices ks).map
          observables)
      ↔ freshMachine.lastFault = freshMachine.lastFault
        ∧ freshMachine.pendingMigrationTarget = freshMachine.pendingMigrationTarget :=
  restore_erases_history_iff rfl rfl freshMachine.snapshot

/-- A rollback behind a fault still shows the fault. -/
theorem faultedMachine_not_erased :
    ¬ ∀ vm₁ vm₂, Reachable vm₁ → Reachable vm₂ → vm₁.config = vm₂.config →
      vm₁.program = vm₂.program → ∀ snapshot ks,
        ((vm₁.restore snapshot).afterSlices ks).map observables
          = ((vm₂.restore snapshot).afterSlices ks).map observables := by
  intro h
  have hsame := h freshMachine faultedMachine (.create _ _) faultedMachine_reachable rfl rfl
    freshMachine.snapshot []
  have hfault := congrArg Observables.lastFault (Option.some.inj hsame)
  exact absurd hfault (by decide)

end VirtualMachine

end VmmShowcase
