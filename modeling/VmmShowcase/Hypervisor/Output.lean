import VmmShowcase.Hypervisor.Dispatches
import VmmShowcase.Vm.Printing

/-! # The schedule does not show in the output

The machines write to one standard output, in the order of their dispatches. The lines of each of them
are those it writes alone: a dispatch takes them from the front of what the machine has still to write,
and the two pre-copy slices of a migration write nothing. This needs no assumption about the programs,
the scheduler or the transport, and it holds at every head of the loop of `Run`, so also while it goes
round for ever. -/

namespace VmmShowcase

namespace VirtualMachine

/-- What the two slices of `PreCopyMigrate` write. -/
def preCopyOutput (vm : VirtualMachine) : List CString :=
  vm.sliceOutput 10 ++
    match vm.runForSlice 10 with
    | some (_, vm) => vm.sliceOutput 10
    | none => []

/-- What a dispatch of the machine writes. -/
def dispatchOutput (vm : VirtualMachine) : List CString :=
  vm.sliceOutput vm.config.execSlice ++
    match vm.runForSlice vm.config.execSlice with
    | some (_, vm) => if vm.pendingMigrationTarget.isSome then vm.preCopyOutput else []
    | none => []

/-- **A dispatch takes what it writes from the front** of what the machine writes alone, also when it
migrates the machine. -/
theorem dispatchOutput_append {vm vm' : VirtualMachine} (hpending : vm.pendingMigrationTarget = none)
    (h : AfterDispatch vm vm') : vm.dispatchOutput ++ vm'.printsAlone = vm.printsAlone := by
  cases h with
  | slice hrun hnone =>
      have hout : vm.dispatchOutput = vm.sliceOutput vm.config.execSlice := by
        simp [dispatchOutput, hrun, hnone]
      rw [hout, sliceOutput_append hrun]
  | migration hmigration =>
      obtain @⟨vm₁, vm₂, vm₃, _, _, _, h₁, hsome, h₂, h₃⟩ := hmigration
      obtain ⟨inst, hf, hop⟩ := fetch_of_pending hpending h₁ hsome
      obtain ⟨-, -, hstays⟩ := blocked_of_pending hpending h₁ hsome
      -- the pre-copy slices find the machine at its `MIGRATE` and leave it there
      rw [hstays (by omega)] at h₂
      cases h₂
      rw [hstays (by omega)] at h₃
      cases h₃
      have hsilent : vm₁.preCopyOutput = [] := by
        simp only [preCopyOutput, hstays (Nat.le_add_left 1 9), sliceOutput_of_migrate hf hop,
          List.append_nil]
      have hout : vm.dispatchOutput = vm.sliceOutput vm.config.execSlice := by
        simp [dispatchOutput, h₁, hsilent]
      have hclear : vm₁.clearMigrationIntent.printsAlone = vm₁.printsAlone := by
        have hf' : vm₁.clearMigrationIntent.fetch = some inst := hf
        rw [printsAlone, printsAlone, sliceOutput_of_migrate hf' hop, sliceOutput_of_migrate hf hop]
      rw [hout, hclear, sliceOutput_append h₁]

end VirtualMachine

namespace HypervisorCore

open VirtualMachine (create)

variable {τ : Type} {transport : Transport τ}

/-- What an iteration writes, each line with the machine it comes from. -/
def roundOutput (core : HypervisorCore τ) : List (Nat × CString) :=
  match core.vms[core.pick.1]? with
  | some vm => if vm.status.Done then [] else vm.dispatchOutput.map (Prod.mk core.pick.1)
  | none => []

/-- The body of the loop in `Run` beside what was written. -/
def printingBody (transport : Transport τ) :
    HypervisorCore τ × List (Nat × CString) → LoopStep (HypervisorCore τ × List (Nat × CString)) :=
  Loop.recording (body transport) roundOutput

/-- The lines of machine `i`. -/
def linesOf (i : Nat) (out : List (Nat × CString)) : List CString :=
  out.filterMap fun line => if line.1 = i then some line.2 else none

/-- The lines a machine writes are its own. -/
theorem linesOf_map_self (i : Nat) (lines : List CString) :
    linesOf i (lines.map (Prod.mk i)) = lines := by
  simp [linesOf, List.filterMap_map]

/-- The lines a machine writes are no other's. -/
theorem linesOf_map_of_ne {i j : Nat} (h : j ≠ i) (lines : List CString) :
    linesOf i (lines.map (Prod.mk j)) = [] := by
  simp [linesOf, List.filterMap_map, h]

/-- A machine that is not live is not dispatched, so nothing is written. -/
theorem roundOutput_of_not_live {core : HypervisorCore τ} (h : ¬ Live core.statuses core.pick.1) :
    core.roundOutput = [] := by
  rw [live_statuses_iff] at h
  rw [roundOutput]
  cases hvm : core.vms[core.pick.1]? with
  | none => rfl
  | some vm =>
      have hdone : vm.status.Done := by
        by_contra hlive
        exact h ⟨vm, hvm, hlive⟩
      simp only [if_pos hdone]

/-- What the machines have written so far, and what they have still to write, is what the machines that
were added write alone. -/
structure Prints (added : List VirtualMachine) (p : HypervisorCore τ × List (Nat × CString)) :
    Prop where
  length_eq : p.1.vms.length = added.length
  pending : ∀ vm ∈ p.1.vms, vm.pendingMigrationTarget = none
  machine_lt : ∀ line ∈ p.2, line.1 < added.length
  lines : ∀ (i : Nat) (vm₀ : VirtualMachine), added[i]? = some vm₀ →
    ∃ vm, p.1.vms[i]? = some vm ∧ linesOf i p.2 ++ vm.printsAlone = vm₀.printsAlone

/-- An iteration writes from the front of what is still to write. -/
theorem Prints.next {added : List VirtualMachine} {p q : HypervisorCore τ × List (Nat × CString)}
    (h : Prints added p) (hbody : printingBody transport p = .next q) : Prints added q := by
  obtain ⟨core, out⟩ := p
  obtain ⟨core', out'⟩ := q
  obtain ⟨hnext, hout⟩ := Loop.recording_eq_next_iff.mp hbody
  simp only at hnext hout
  obtain ⟨hlength, hpending, hmachine, hlines⟩ := h
  have hturn := turn_of_body hnext
  have hpending' := hturn.forall_vms (fun vm => vm.pendingMigrationTarget = none)
    (fun _ _ _ hafter => hafter.pending) hpending
  cases hturn with
  | skip _ _ hdead =>
      rw [roundOutput_of_not_live hdead, List.append_nil] at hout
      subst hout
      exact ⟨hlength, hpending', hmachine, hlines⟩
  | @dispatch vm vm' _ hvm hlive hafter hdispatched =>
      have hround : core.roundOutput = vm.dispatchOutput.map (Prod.mk core.pick.1) := by
        simp only [roundOutput, hvm, if_neg hlive]
      have hlt : core.pick.1 < core.vms.length := (List.getElem?_eq_some_iff.mp hvm).1
      have hvms : core'.vms = core.vms.set core.pick.1 vm' := hdispatched.vms_eq
      rw [hround] at hout
      subst hout
      refine ⟨?_, hpending', ?_, fun i vm₀ hvm₀ => ?_⟩
      · rw [hvms, List.length_set]
        exact hlength
      · intro line hline
        rcases List.mem_append.mp hline with hline | hline
        · exact hmachine line hline
        · obtain ⟨text, -, rfl⟩ := List.mem_map.mp hline
          exact hlength ▸ hlt
      · obtain ⟨u, hu, hwritten⟩ := hlines i vm₀ hvm₀
        simp only at hu hwritten ⊢
        rw [linesOf, List.filterMap_append, ← linesOf, ← linesOf, hvms]
        by_cases hi : core.pick.1 = i
        · -- the machine that was dispatched
          subst hi
          rw [hvm, Option.some.injEq] at hu
          subst hu
          refine ⟨vm', List.getElem?_set_self hlt, ?_⟩
          rw [linesOf_map_self, List.append_assoc,
            VirtualMachine.dispatchOutput_append (hpending vm (List.mem_of_getElem? hvm)) hafter,
            hwritten]
        · refine ⟨u, by rw [List.getElem?_set_ne hi, hu], ?_⟩
          rw [linesOf_map_of_ne hi, List.append_nil, hwritten]

/-- New machines have written nothing. -/
theorem prints_newCore (machines : List (VmConfig × Program)) (scheduler : Scheduler) (t : τ) :
    Prints (machines.map fun p => create p.1 p.2) (newCore machines scheduler t, []) := by
  refine ⟨rfl, ?_, by simp, fun i vm₀ hvm₀ => ⟨vm₀, hvm₀, rfl⟩⟩
  intro vm hvm
  obtain ⟨p, -, rfl⟩ := List.mem_map.mp hvm
  rfl

/-- What was written at a head of the loop comes from the front of what the machines write alone. -/
theorem prints_of_reaches {machines : List (VmConfig × Program)} {scheduler : Scheduler} {t : τ}
    {p : HypervisorCore τ × List (Nat × CString)}
    (h : Loop.Reaches (printingBody transport) (newCore machines scheduler t, []) p) :
    Prints (machines.map fun p => create p.1 p.2) p :=
  h.invariant (Prints _) (fun _ _ h hbody => h.next hbody) (prints_newCore machines scheduler t)

/-- The lines that were written belong to machines. -/
theorem Prints.lt_of_mem {machines : List (VmConfig × Program)}
    {p : HypervisorCore τ × List (Nat × CString)}
    (h : Prints (machines.map fun p => create p.1 p.2) p) : ∀ line ∈ p.2, line.1 < machines.length := by
  simpa only [List.length_map] using h.machine_lt

/-- What a machine has written and what it has still to write. -/
theorem Prints.exists_vm {machines : List (VmConfig × Program)}
    {p : HypervisorCore τ × List (Nat × CString)}
    (h : Prints (machines.map fun p => create p.1 p.2) p) {i : Nat} {q : VmConfig × Program}
    (hq : machines[i]? = some q) : ∃ vm, p.1.vms[i]? = some vm
      ∧ linesOf i p.2 ++ vm.printsAlone = (create q.1 q.2).printsAlone :=
  h.lines i _ (by rw [List.getElem?_map, hq, Option.map_some])

/-- The output of a loop that is left is what the machines write alone. -/
theorem lines_of_terminates {machines : List (VmConfig × Program)} {scheduler : Scheduler} {t : τ}
    {core : HypervisorCore τ} {out : List (Nat × CString)}
    (h : Loop.Terminates (printingBody transport) (newCore machines scheduler t, []) (core, out)) :
    (∀ line ∈ out, line.1 < machines.length)
      ∧ ∀ (i : Nat) (p : VmConfig × Program), machines[i]? = some p →
        linesOf i out = (create p.1 p.2).printsAlone := by
  obtain ⟨q, hreach, hexit⟩ := h.exists_exit
  obtain ⟨hexit, rfl⟩ := Loop.recording_eq_exit_iff.mp hexit
  obtain ⟨-, hdone⟩ := body_eq_exit_iff.mp hexit
  have hprints := prints_of_reaches hreach
  refine ⟨hprints.lt_of_mem, fun i p hp => ?_⟩
  obtain ⟨vm, hvm, hwritten⟩ := hprints.exists_vm hp
  -- every machine is done, so none has a line left to write
  rw [VirtualMachine.printsAlone, VirtualMachine.sliceOutput_of_done
    (hdone vm (List.mem_of_getElem? hvm)), List.append_nil] at hwritten
  exact hwritten

/-- **The schedule does not show in the output.** For any new machines, any scheduler and any transport,
at every head of the loop of `Run` the lines that machine `i` has written, and those it has still to
write, are the lines it writes alone. When `Run` returns, the output consists of what the machines write
alone. -/
theorem run_prints (machines : List (VmConfig × Program)) (scheduler : Scheduler) (t : τ)
    (transport : Transport τ) :
    (∀ core out, Loop.Reaches (printingBody transport) (newCore machines scheduler t, []) (core, out) →
        (∀ line ∈ out, line.1 < machines.length)
          ∧ ∀ (i : Nat) (p : VmConfig × Program), machines[i]? = some p →
            ∃ vm, core.vms[i]? = some vm
              ∧ linesOf i out ++ vm.printsAlone = (create p.1 p.2).printsAlone)
      ∧ ∀ core, Run transport (newCore machines scheduler t) core →
        ∃ out, Loop.Terminates (printingBody transport) (newCore machines scheduler t, []) (core, out)
          ∧ (∀ line ∈ out, line.1 < machines.length)
          ∧ ∀ (i : Nat) (p : VmConfig × Program), machines[i]? = some p →
            linesOf i out = (create p.1 p.2).printsAlone := by
  constructor
  · intro core out hreach
    have hprints := prints_of_reaches hreach
    exact ⟨hprints.lt_of_mem, fun i p hp => hprints.exists_vm hp⟩
  · intro core hrun
    obtain ⟨out, hterminates⟩ := Loop.terminates_recording_iff.mpr hrun
    exact ⟨out, hterminates, lines_of_terminates hterminates⟩

/-- Two machines that print a line each, one of them with a slice that ends behind it. -/
def printingMachines : List (VmConfig × Program) :=
  [({ name := [0x61], execSlice := 1 }, ⟨[{ opcode := .dumpProcessorState }, { opcode := .halt }],
      by decide⟩),
    ({ name := [0x62] }, ⟨[{ opcode := .dumpProcessorState }], by decide⟩)]

/-- The theorem for two machines under MLFQ. -/
theorem run_prints_printingMachines : ∃ core out,
    Loop.Terminates (printingBody acceptingTransport) (newCore printingMachines (.mlfq {}) (), [])
        (core, out)
      ∧ ∀ (i : Nat) (p : VmConfig × Program), printingMachines[i]? = some p →
        linesOf i out = (create p.1 p.2).printsAlone := by
  have hrun : ∃ core, Run acceptingTransport (newCore printingMachines (.mlfq {}) ()) core :=
    exists_run_newCore (by decide) (by decide) (by decide) (by simp) () acceptingTransport
  obtain ⟨core, hrun⟩ := hrun
  obtain ⟨out, hterminates, -, hlines⟩ :=
    (run_prints printingMachines (.mlfq {}) () acceptingTransport).2 core hrun
  exact ⟨core, out, hterminates, hlines⟩

end HypervisorCore

end VmmShowcase
