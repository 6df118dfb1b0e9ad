import VmmShowcase.Migration.Transparency
import VmmShowcase.Snapshot.CompleteFiles

/-! # Going on from a snapshot file

A snapshot file leaves the page table out, as a packet does, and `Load` keeps the one of its target. So a
machine that is restored from its file goes on as it would have if the target has its page table. With the
empty page table of a default snapshot it is the machine at the destination of a migration, and goes on as
it would have exactly if it comes to no memory access. -/

namespace VmmShowcase

open TextStream

namespace VirtualMachine

/-- A fresh machine with this one's configuration and program, restored from what `Load` makes of the
file that `Save` writes of its snapshot, in this target. -/
def reloaded (vm : VirtualMachine) (target : VmSnapshot) : Option VirtualMachine := do
  let file := (SnapshotService.save true vm.snapshot "").2.1
  let (_, snapshot, _) ← SnapshotService.load file target ""
  return (create vm.config vm.program).restore snapshot

/-- The machine and the one from its file give the same answers to every sequence of slices. -/
def ReloadsTransparently (vm : VirtualMachine) (target : VmSnapshot) : Prop :=
  ∀ ks : List Nat, (∀ k ∈ ks, 1 ≤ k) →
    Component.trace call (vm.reloaded target) ks = Component.trace call (some vm) ks

/-- The machine is restored but for the page table, which is the target's. -/
theorem reloaded_eq {vm : VirtualMachine} (hname : newline ∉ vm.config.name)
    (hmem : vm.memory.bytes.length ≤ SnapshotService.maxSize) (target : VmSnapshot) :
    vm.reloaded target = some ((create vm.config vm.program).restore
      { vm.snapshot with pageTable := target.pageTable }) := by
  have hcomplete : SnapshotService.IsSnapshot (SnapshotService.print vm.snapshot) vm.snapshot :=
    SnapshotService.isSnapshot_print hname hmem
  rw [reloaded]
  show ((SnapshotService.load (some (SnapshotService.print vm.snapshot)) target "").bind _) = _
  rw [SnapshotService.load_of_isSnapshot hcomplete]
  rfl

/-- What the machine from the file shows is what its guest shows. -/
theorem trace_reloaded {vm : VirtualMachine} (hname : newline ∉ vm.config.name)
    (hmem : vm.memory.bytes.length ≤ SnapshotService.maxSize) (target : VmSnapshot) {ks : List Nat}
    (hks : ∀ k ∈ ks, 1 ≤ k) :
    Component.trace call (vm.reloaded target) ks
      = Component.trace (GuestState.call vm.program) (some ((create vm.config vm.program).restore
        { vm.snapshot with pageTable := target.pageTable }).guest) ks := by
  rw [reloaded_eq hname hmem, (consistent_restore _ _).trace_eq hks]
  rfl

end VirtualMachine

end VmmShowcase
