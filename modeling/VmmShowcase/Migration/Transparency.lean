import VmmShowcase.Migration.StateSerializer
import VmmShowcase.Vm.SnapshotRestore

/-! # Migration is not transparent

The wire format leaves the page table out, so the destination of a migration runs with an empty
one: every load and every store faults there. A migrated machine can be told from its source
exactly when the source has a load or store ahead of it whose address translates. Up to that
instruction, and for a program without one forever, the two show the same. -/

namespace VmmShowcase

namespace GuestState

/-- The guest with all pages unmapped. -/
def unmapped (g : GuestState) : GuestState :=
  { g with memory := { g.memory with pageTable := Table.empty } }

@[simp] theorem unmapped_cpu (g : GuestState) : g.unmapped.cpu = g.cpu := rfl

/-- With no page mapped every translation is a page fault. -/
theorem translate_unmapped (g : GuestState) (virtualAddr : Word) :
    g.unmapped.memory.translate virtualAddr = .error VirtualMemory.pageFault := rfl

/-- The instruction reads or writes memory at an address that translates. -/
inductive Accesses (g : GuestState) (inst : Instruction) : Prop where
  | load (hop : inst.opcode = .lw) {paddr : Word}
      (htr : g.memory.translate inst.imm = .ok paddr) : Accesses g inst
  | store (hop : inst.opcode = .sw) {value paddr : Word} (hvalue : g.cpu.reg inst.rs = some value)
      (htr : g.memory.translate inst.imm = .ok paddr) : Accesses g inst

/-- The guest comes to an instruction that accesses memory. -/
inductive ReachesAccess (program : Program) : GuestState → Prop where
  | here {g : GuestState} {inst : Instruction} (hf : g.fetch program = some inst)
      (hacc : g.Accesses inst) : ReachesAccess program g
  | step {g g' : GuestState} {inst : Instruction} (hf : g.fetch program = some inst)
      (hexec : g.exec inst = some (.retired g')) (h : ReachesAccess program g') :
      ReachesAccess program g

/-- An effect and the one it has without mapped pages: the same retirement, or a stop with the same
status. -/
inductive Agrees : Effect → Effect → Prop where
  | retired (g : GuestState) : Agrees (.retired g) (.retired g.unmapped)
  | stopped {reason reason' : StopReason} (h : reason'.status = reason.status) :
      Agrees (.stopped reason) (.stopped reason')

/-- Writing a register does not look at memory. -/
theorem retireReg_unmapped (g : GuestState) (idx : Int) (value : Word) :
    Option.Rel Agrees (g.retireReg idx value) (g.unmapped.retireReg idx value) := by
  rw [retireReg, retireReg, unmapped_cpu]
  cases g.cpu.setReg idx value with
  | none => exact .none
  | some cpu => exact .some (.retired _)

/-- **An instruction that does not access memory does not notice that no page is mapped.** -/
theorem exec_unmapped {g : GuestState} {inst : Instruction} (h : ¬ g.Accesses inst) :
    Option.Rel Agrees (g.exec inst) (g.unmapped.exec inst) := by
  cases hop : inst.opcode with
  | li =>
      simp only [exec, hop]
      exact g.retireReg_unmapped _ _
  | add | sub | mul =>
      simp only [exec, hop, unmapped_cpu]
      cases g.cpu.reg inst.rs with
      | none => exact .none
      | some a =>
          cases g.cpu.reg inst.rt with
          | none => exact .none
          | some b => exact g.retireReg_unmapped _ _
  | addi =>
      simp only [exec, hop, unmapped_cpu]
      cases g.cpu.reg inst.rs with
      | none => exact .none
      | some a => exact g.retireReg_unmapped _ _
  | div =>
      simp only [exec, hop, unmapped_cpu]
      cases g.cpu.reg inst.rt with
      | none => exact .none
      | some divisor =>
          simp only [Option.bind_eq_bind, Option.bind_some]
          by_cases hdiv : divisor = 0
          · rw [if_pos hdiv, if_pos hdiv]
            exact .some (.stopped rfl)
          · rw [if_neg hdiv, if_neg hdiv]
            cases g.cpu.reg inst.rs with
            | none => exact .none
            | some dividend => exact .some (.retired _)
  | lw =>
      cases htr : g.memory.translate inst.imm with
      | ok paddr => exact absurd (.load hop htr) h
      | error fault =>
          -- both fault, not always with the same message
          simp only [exec, hop, PageWalkMemory.readWord, htr, translate_unmapped]
          exact .some (.stopped rfl)
  | sw =>
      simp only [exec, hop, unmapped_cpu]
      cases hvalue : g.cpu.reg inst.rs with
      | none => exact .none
      | some value =>
          cases htr : g.memory.translate inst.imm with
          | ok paddr => exact absurd (.store hop hvalue htr) h
          | error fault =>
              simp only [PageWalkMemory.writeWord, htr, translate_unmapped]
              exact .some (.stopped rfl)
  | dumpProcessorState | snapshot =>
      simp only [exec, hop]
      exact .some (.retired _)
  | migrate | halt | and | or | xor | sll | srl | invalid =>
      simp only [exec, hop]
      exact .some (.stopped rfl)

/-- **An instruction that accesses memory faults when no page is mapped**, and does not stop when
its page is. -/
theorem exec_of_accesses {g : GuestState} {inst : Instruction} (h : g.Accesses inst) :
    g.unmapped.exec inst = some (.stopped (.faulted VirtualMemory.pageFault))
      ∧ ∀ reason, g.exec inst ≠ some (.stopped reason) := by
  cases h with
  | load hop htr =>
      refine ⟨exec_eq_stopped_iff.mpr (.load hop (g.translate_unmapped _)), fun reason => ?_⟩
      simp only [exec, hop, PageWalkMemory.readWord, htr]
      exact g.retireReg_ne_stopped _ _ reason
  | store hop hvalue htr =>
      refine ⟨exec_eq_stopped_iff.mpr (.store hop hvalue (g.translate_unmapped _)), fun reason => ?_⟩
      simp [exec, hop, hvalue, PageWalkMemory.writeWord, htr, Except.map, retire]

/-! ## Guests that access no memory -/

/-- A guest that comes to no access, and the same guest without mapped pages, in a slice. -/
structure Blind (program : Program) (s t : GuestState × VmStatus) : Prop where
  no_access : ¬ ReachesAccess program s.1
  eq : t = (s.1.unmapped, s.2)

/-- One round of a slice keeps the two together. -/
theorem Blind.sliceStep {program : Program} {s t : GuestState × VmStatus}
    (h : Blind program s t) :
    Option.Rel (fun p q => p.1 = q.1 ∧ Blind program p.2 q.2) (sliceStep program s)
      (GuestState.sliceStep program t) := by
  obtain ⟨g, status⟩ := s
  obtain ⟨hno, rfl⟩ := h
  have hfetch : g.unmapped.fetch program = g.fetch program := rfl
  rw [GuestState.sliceStep, GuestState.sliceStep, hfetch]
  cases hf : g.fetch program with
  | none => exact .some ⟨rfl, hno, rfl⟩
  | some inst =>
      -- the instruction is no access, and no access comes behind it either
      have hexec := exec_unmapped fun hacc => hno (.here hf hacc)
      rcases BudgetedRun.rel_cases hexec with ⟨he, hu⟩ | ⟨effect, effect', he, hu, hagrees⟩
      · simp only [he, hu, Option.map_none]
        exact .none
      simp only [he, hu, Option.map_some]
      cases hagrees with
      | retired g₁ => exact .some ⟨rfl, fun hacc => hno (.step hf he hacc), rfl⟩
      | stopped hstatus => exact .some ⟨rfl, hno, congrArg (Prod.mk g.unmapped) hstatus⟩

/-- A guest that comes to no access shows the same without mapped pages. -/
theorem trace_unmapped {program : Program} {g : GuestState} (h : ¬ ReachesAccess program g)
    (ks : List Nat) :
    Component.trace (call program) (some g.unmapped) ks
      = Component.trace (call program) (some g) ks := by
  refine (Component.trace_eq_of_bisimulation
    (Option.Rel fun g u => ¬ ReachesAccess program g ∧ u = g.unmapped) (fun _ => True) ?_
    (.some ⟨h, rfl⟩) (fun _ _ => trivial)).symm
  rintro g u k - hgu
  rcases BudgetedRun.rel_cases hgu with ⟨rfl, rfl⟩ | ⟨g, u, rfl, rfl, hno, rfl⟩
  · exact ⟨rfl, .none⟩
  have hstart : Blind program (g, .running) (g.unmapped, .running) := ⟨hno, rfl⟩
  have hrun := BudgetedRun.run_simulates (Blind program) (fun _ _ h => h.sliceStep) k hstart
  rw [call, call, Option.bind_some, Option.bind_some, slice, slice]
  rcases BudgetedRun.rel_cases hrun with ⟨hs, ht⟩ | ⟨⟨r, s⟩, ⟨r', t⟩, hs, ht, hr, hno, heq⟩
  · rw [hs, ht]
    exact ⟨rfl, .none⟩
  · simp only at hr heq
    subst hr heq
    rw [hs, ht]
    exact ⟨rfl, .some ⟨hno, rfl⟩⟩

/-! ## Guests that access memory -/

/-- In a slice that starts at an access, a guest without mapped pages stops at once; with its pages
it goes on. -/
theorem run_of_accesses {program : Program} {g : GuestState} {inst : Instruction}
    (hf : g.fetch program = some inst) (hacc : g.Accesses inst) (status : VmStatus) :
    (∃ s, BudgetedRun.run (GuestState.sliceStep program) 1 (g.unmapped, status) = some (0, s))
      ∧ ∀ p, BudgetedRun.run (GuestState.sliceStep program) 1 (g, status) = some p → p.1 = 1 := by
  obtain ⟨hstop, hgo⟩ := exec_of_accesses hacc
  constructor
  · have hf' : g.unmapped.fetch program = some inst := hf
    have hstep : GuestState.sliceStep program (g.unmapped, status)
        = some (false, (g.unmapped, .faulted)) := by
      simp [GuestState.sliceStep, hf', hstop, StopReason.status]
    exact ⟨_, BudgetedRun.run_succ_stop hstep⟩
  · intro p hp
    rcases he : g.exec inst with _ | g' | reason
    · have hstep : GuestState.sliceStep program (g, status) = none := by
        simp [GuestState.sliceStep, hf, he]
      rw [BudgetedRun.run_succ_none hstep] at hp
      cases hp
    · have hstep : GuestState.sliceStep program (g, status) = some (true, (g', .running)) := by
        simp [GuestState.sliceStep, hf, he]
      rw [BudgetedRun.run_succ_advance hstep] at hp
      cases hp
      rfl
    · exact absurd he (hgo reason)

/-- A guest that comes to an access after `n` instructions stops there when no page is mapped; with
its pages it goes on. -/
theorem ReachesAccess.exists_run {program : Program} {g : GuestState}
    (h : ReachesAccess program g) (status : VmStatus) :
    ∃ n, (∃ s, BudgetedRun.run (GuestState.sliceStep program) (n + 1) (g.unmapped, status)
        = some (n, s))
      ∧ ∀ p, BudgetedRun.run (GuestState.sliceStep program) (n + 1) (g, status) = some p →
        p.1 = n + 1 := by
  induction h generalizing status with
  | here hf hacc => exact ⟨0, run_of_accesses hf hacc status⟩
  | @step g g' inst hf hexec h ih =>
      by_cases hacc : g.Accesses inst
      · exact ⟨0, run_of_accesses hf hacc status⟩
      -- an instruction that accesses nothing takes both to the next state
      have hstep : GuestState.sliceStep program (g, status) = some (true, (g', .running)) := by
        simp [GuestState.sliceStep, hf, hexec]
      have hexec' := exec_unmapped hacc
      rw [hexec] at hexec'
      rcases BudgetedRun.rel_cases hexec' with ⟨he, -⟩ | ⟨effect, effect', he, hu, hagrees⟩
      · cases he
      cases he
      cases hagrees
      have hf' : g.unmapped.fetch program = some inst := hf
      have hstep' : GuestState.sliceStep program (g.unmapped, status)
          = some (true, (g'.unmapped, .running)) := by
        simp [GuestState.sliceStep, hf', hu]
      obtain ⟨n, ⟨s, hs⟩, hcount⟩ := ih .running
      refine ⟨n + 1, ⟨s, ?_⟩, ?_⟩
      · rw [BudgetedRun.run_succ_advance hstep', hs, Option.map_some]
      · intro p hp
        rw [BudgetedRun.run_succ_advance hstep, Option.map_eq_some_iff] at hp
        obtain ⟨q, hq, rfl⟩ := hp
        rw [hcount q hq]

/-- A guest that comes to an access is told apart from itself without mapped pages by one slice. -/
theorem ReachesAccess.trace_ne {program : Program} {g : GuestState} (h : ReachesAccess program g) :
    ∃ k, 1 ≤ k ∧ Component.trace (call program) (some g.unmapped) [k]
      ≠ Component.trace (call program) (some g) [k] := by
  obtain ⟨n, ⟨s, hs⟩, hcount⟩ := h.exists_run .running
  refine ⟨n + 1, Nat.le_add_left 1 n, ?_⟩
  intro heq
  -- a slice just long enough to carry out the access retires one instruction more with the pages
  rw [Component.trace_cons, Component.trace_cons, Component.trace_nil, Component.trace_nil,
    List.cons.injEq, call, call, Option.bind_some, Option.bind_some, slice, slice, hs] at heq
  cases hg : BudgetedRun.run (GuestState.sliceStep program) (n + 1) (g, .running) with
  | none =>
      rw [hg] at heq
      exact absurd heq.1 (by simp)
  | some p =>
      rw [hg] at heq
      have hr := hcount p hg
      simp only [Option.map_some, Option.some.injEq, Prod.mk.injEq] at heq
      omega

end GuestState

/-! ## Migrated machines -/

namespace VirtualMachine

/-- The destination of a migration: a fresh machine with the source's configuration and program,
restored from what the decoder makes of the source's packet in a default snapshot. -/
def migrated (vm : VirtualMachine) : Option VirtualMachine := do
  let (_, snapshot, _) ← StateSerializer.deserialize (StateSerializer.serialize vm.snapshot) {} ""
  return (create vm.config vm.program).restore snapshot

/-- Source and destination give the same answers to every sequence of slices. -/
def MigratesTransparently (vm : VirtualMachine) : Prop :=
  ∀ ks : List Nat, (∀ k ∈ ks, 1 ≤ k) →
    Component.trace call vm.migrated ks = Component.trace call (some vm) ks

/-- The destination is the source's guest without mapped pages. -/
theorem exists_migrated {vm : VirtualMachine} (hname : vm.config.name.length < 2 ^ 32)
    (hmem : vm.memory.bytes.length < 2 ^ 32) :
    ∃ dest, vm.migrated = some dest ∧ dest.Consistent ∧ dest.program = vm.program
      ∧ dest.guest = vm.guest.unmapped := by
  have hname' : vm.snapshot.vmName.length < 2 ^ 32 := hname
  have hmem' : vm.snapshot.memoryBytes.length < 2 ^ 32 := hmem
  rw [migrated, StateSerializer.deserialize_accepts hname' hmem' {} ""]
  exact ⟨_, rfl, consistent_restore _ _, rfl, rfl⟩

/-- What source and destination of a migration show is what the source's guest shows with and
without its mapped pages. -/
theorem trace_migrated {vm : VirtualMachine} (hvm : Reachable vm)
    (hname : vm.config.name.length < 2 ^ 32) (hmem : vm.memory.bytes.length < 2 ^ 32)
    {ks : List Nat} (hks : ∀ k ∈ ks, 1 ≤ k) :
    Component.trace call vm.migrated ks
        = Component.trace (GuestState.call vm.program) (some vm.guest.unmapped) ks
      ∧ Component.trace call (some vm) ks
        = Component.trace (GuestState.call vm.program) (some vm.guest) ks := by
  obtain ⟨dest, hdest, hcons, hprog, hguest⟩ := exists_migrated hname hmem
  rw [hdest, hcons.trace_eq hks, hprog, hguest]
  exact ⟨rfl, hvm.consistent.trace_eq hks⟩

/-- One slice tells a machine that comes to a memory access from its migrated copy. -/
theorem not_transparent_of_reachesAccess {vm : VirtualMachine} (hvm : Reachable vm)
    (hname : vm.config.name.length < 2 ^ 32) (hmem : vm.memory.bytes.length < 2 ^ 32)
    (h : vm.guest.ReachesAccess vm.program) : ¬ vm.MigratesTransparently := by
  intro htransparent
  obtain ⟨k, hk, hne⟩ := h.trace_ne
  have hks : ∀ j ∈ [k], 1 ≤ j := by simpa using hk
  obtain ⟨hdest, hsource⟩ := trace_migrated hvm hname hmem hks
  exact hne (hdest.symm.trans ((htransparent [k] hks).trans hsource))

/-- **Migration is transparent exactly for machines that come to no memory access.** -/
theorem migratesTransparently_iff {vm : VirtualMachine} (hvm : Reachable vm)
    (hname : vm.config.name.length < 2 ^ 32) (hmem : vm.memory.bytes.length < 2 ^ 32) :
    vm.MigratesTransparently ↔ ¬ vm.guest.ReachesAccess vm.program := by
  constructor
  · intro htransparent hreach
    exact not_transparent_of_reachesAccess hvm hname hmem hreach htransparent
  · intro hno ks hks
    obtain ⟨hdest, hsource⟩ := trace_migrated hvm hname hmem hks
    rw [hdest, hsource]
    exact GuestState.trace_unmapped hno ks

/-- A new machine `vm` with 16 bytes of memory, about to run `storeAndLoad`. -/
def storingMachine : VirtualMachine := create { name := [0x76, 0x6d], memoryBytes := 16 } storeAndLoad

/-- The theorem at the storing machine. -/
theorem migratesTransparently_iff_storingMachine : storingMachine.MigratesTransparently
    ↔ ¬ storingMachine.guest.ReachesAccess storingMachine.program :=
  migratesTransparently_iff (.create _ _) (by decide) (by decide)

/-- The storing machine comes to its store after one instruction, and its migrated copy faults
there. -/
theorem storingMachine_not_transparent : ¬ storingMachine.MigratesTransparently := by
  refine not_transparent_of_reachesAccess (.create _ _) (by decide) (by decide) ?_
  refine .step rfl rfl (.here rfl ?_)
  exact .store rfl rfl rfl

end VirtualMachine

end VmmShowcase
