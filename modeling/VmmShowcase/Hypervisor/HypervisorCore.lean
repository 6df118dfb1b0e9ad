import VmmShowcase.Foundations.LoopSemantics
import VmmShowcase.Metrics.MetricsTracer
import VmmShowcase.Migration.MigrationService
import VmmShowcase.Scheduler.Schedulers

/-! # The hypervisor core

`include/hypervisor/hypervisor_core.hpp` and `src/hypervisor/hypervisor_core.cpp`. `Run` is a
`while (true)` loop, given here by its body. The core carries a log of what the loop does, in order;
no function reads it. -/

namespace VmmShowcase

/-- What the loop of `Run` does. -/
inductive Event where
  /-- A slice is run on machine `idx`. -/
  | dispatched (idx : Nat)
  /-- `SendPacket` is called with the state of machine `idx`, which has this status. -/
  | sent (idx : Nat) (status : VmStatus) (packet : MigrationPacket) (accepted : Bool)
  /-- `PreCopyMigrate` returns true for machine `idx`. -/
  | handedOver (idx : Nat)
  /-- `PreCopyMigrate` returns false for machine `idx`, and the error is printed. -/
  | migrationFailed (idx : Nat) (error : String)
  deriving DecidableEq

/-- `HypervisorCore`, with the state of the transport its migration service uses. -/
structure HypervisorCore (τ : Type) where
  vms : List VirtualMachine := []
  scheduler : Scheduler
  metrics : MetricsTracer := {}
  transport : τ
  log : List Event := []

namespace HypervisorCore

variable {τ : Type}

/-- `AddVm`. -/
def addVm (core : HypervisorCore τ) (vm : VirtualMachine) : HypervisorCore τ :=
  { core with vms := core.vms ++ [vm] }

/-- `statuses`. -/
def statuses (core : HypervisorCore τ) : List VmStatus := core.vms.map (·.status)

/-- `priorities`. -/
def priorities (core : HypervisorCore τ) : List Int := core.vms.map (·.config.priority)

/-- The events of a call of `PreCopyMigrate`. -/
def migrationEvents (idx : Nat) (status : VmStatus) (packet : MigrationPacket)
    (outcome : SendOutcome τ) : List Event :=
  outcome.answers.map (.sent idx status packet)
    ++ [if outcome.ok then .handedOver idx else .migrationFailed idx outcome.error]

/-- The part of the loop body behind the guards: run a slice on machine `idx`, and migrate it if it
asks for that. -/
def dispatch (transport : Transport τ) (core : HypervisorCore τ) (idx : Nat) (vm : VirtualMachine) :
    Option (HypervisorCore τ) := do
  let metrics := core.metrics.recordDispatch vm.config.name
  let (retired, vm) ← vm.runForSlice vm.config.execSlice
  let metrics := metrics.recordInstructions vm.config.name retired
  let log := core.log ++ [.dispatched idx]
  match vm.pendingMigrationTarget with
  | none => return { core with vms := core.vms.set idx vm, metrics, log }
  | some target =>
      let (vm, packet, outcome) ←
        MigrationService.preCopyMigrate transport core.transport vm target ""
      return { core with
        vms := core.vms.set idx vm.clearMigrationIntent
        metrics
        transport := outcome.transport
        log := log ++ migrationEvents idx vm.status packet outcome }

/-- The body of the loop in `Run`. -/
def body (transport : Transport τ) (core : HypervisorCore τ) : LoopStep (HypervisorCore τ) :=
  if (∀ vm ∈ core.vms, vm.status.Done) ∨ core.vms = [] then .exit core
  else
    let (idx, scheduler) := core.scheduler.pickNext core.statuses core.priorities
    let core := { core with scheduler }
    match core.vms[idx]? with
    | none => .next core
    | some vm =>
        if vm.status.Done then .next core
        else
          match core.dispatch transport idx vm with
          | none => .undefined
          | some core => .next core

/-- `Run` returns, and leaves the core as `core'`. -/
def Run (transport : Transport τ) (core core' : HypervisorCore τ) : Prop :=
  Loop.Terminates (body transport) core core'

end HypervisorCore

end VmmShowcase
