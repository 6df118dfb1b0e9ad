import VmmShowcase.Hypervisor.Termination
import VmmShowcase.Vm.SnapshotRestore

/-! # A migration sends one consistent state

Every packet that a `PreCopyMigrate` call hands to the transport is the same one, and it holds the
machine as the call leaves it, whether the transport accepts it or not. A call that `Run` makes for a
pending `MIGRATE` leaves processor and bytes as it finds them, so there the packets hold the machine
as it stood at its `MIGRATE`. -/

namespace VmmShowcase

variable {τ : Type}

/-- The transport that also keeps, in order, the packets handed to `SendPacket`. -/
def Transport.recording (transport : Transport τ) : Transport (τ × List MigrationPacket) where
  handshake := fun s target version =>
    let (accepted, s') := transport.handshake s.1 target version
    (accepted, (s', s.2))
  sendPacket := fun s packet =>
    let (accepted, s') := transport.sendPacket s.1 packet
    (accepted, (s', s.2 ++ [packet]))

/-- An outcome with `packet` kept behind `kept` for every `SendPacket` call that was made. -/
def SendOutcome.recorded (kept : List MigrationPacket) (packet : MigrationPacket)
    (outcome : SendOutcome τ) : SendOutcome (τ × List MigrationPacket) where
  ok := outcome.ok
  error := outcome.error
  transport := (outcome.transport, kept ++ List.replicate outcome.answers.length packet)
  answers := outcome.answers

namespace MigrationProtocol

/-- The loop of `SendWithRetry` hands over its packet once for each answer. -/
theorem sendAttempts_recording (transport : Transport τ) (packet : MigrationPacket) (error : String)
    (attempts : Nat) (s : τ) (kept : List MigrationPacket) :
    sendAttempts transport.recording packet error attempts (s, kept)
      = (sendAttempts transport packet error attempts s).recorded kept packet := by
  induction attempts generalizing s kept with
  | zero =>
      unfold sendAttempts SendOutcome.recorded
      rw [List.length_nil, List.replicate_zero, List.append_nil]
  | succ attempts ih =>
      have hsend : transport.recording.sendPacket (s, kept) packet
          = ((transport.sendPacket s packet).1,
            ((transport.sendPacket s packet).2, kept ++ [packet])) := rfl
      rw [sendAttempts, sendAttempts, hsend]
      generalize transport.sendPacket s packet = p
      obtain ⟨accepted, s'⟩ := p
      cases accepted with
      | true => rfl
      | false =>
          -- the rest of the loop keeps its packets behind this one
          simp only [ih, SendOutcome.recorded, List.length_cons, List.replicate_succ,
            List.append_assoc, List.singleton_append]

/-- **`SendWithRetry` hands over nothing but its packet**, and recording that changes nothing. -/
theorem sendWithRetry_recording (transport : Transport τ) (s : τ) (kept : List MigrationPacket)
    (target : CString) (packet : MigrationPacket) (error : String) :
    sendWithRetry transport.recording (s, kept) target packet error
      = (sendWithRetry transport s target packet error).recorded kept packet := by
  have hshake : transport.recording.handshake (s, kept) target packet.version
      = ((transport.handshake s target packet.version).1,
        ((transport.handshake s target packet.version).2, kept)) := rfl
  rw [sendWithRetry, sendWithRetry, hshake]
  generalize transport.handshake s target packet.version = p
  obtain ⟨accepted, s'⟩ := p
  cases accepted with
  | true => exact sendAttempts_recording transport packet error 3 s' kept
  | false =>
      simp only [SendOutcome.recorded, List.length_nil, List.replicate_zero, List.append_nil]

end MigrationProtocol

namespace VirtualMachine

/-- The packet is accepted by every target, which then holds the machine's own name, processor and
bytes. -/
def CarriedBy (vm : VirtualMachine) (packet : MigrationPacket) : Prop :=
  ∀ target error, ∃ target' error',
    StateSerializer.deserialize packet target error = some (true, target', error')
      ∧ target'.vmName = vm.config.name ∧ target'.cpu = vm.cpu
      ∧ target'.memoryBytes = vm.memory.bytes

/-- The name and the bytes of a machine fit the length fields of a packet. -/
structure FitsPacket (vm : VirtualMachine) : Prop where
  name_lt : vm.config.name.length < 2 ^ 32
  memory_lt : vm.memory.bytes.length < 2 ^ 32

/-- A machine that fits is carried by the packet made of its snapshot. -/
theorem FitsPacket.carriedBy {vm : VirtualMachine} (h : vm.FitsPacket) :
    vm.CarriedBy (StateSerializer.serialize vm.snapshot) := by
  intro target error
  exact ⟨_, _, StateSerializer.deserialize_accepts h.name_lt h.memory_lt target error, rfl, rfl, rfl⟩

/-- A slice of a consistent machine neither outgrows the length fields nor makes it inconsistent. -/
theorem FitsPacket.runForSlice {vm vm' : VirtualMachine} (h : vm.FitsPacket) (hvm : vm.Consistent)
    {k r : Nat} (hrun : vm.runForSlice k = some (r, vm')) : vm'.FitsPacket := by
  refine ⟨?_, ?_⟩
  · rw [(sameProgram_runForSlice hrun).config_eq]
    exact h.name_lt
  · rw [hvm.length_bytes hrun]
    exact h.memory_lt

end VirtualMachine

namespace MigrationService

/-- Recording the packets of a `PreCopyMigrate` call changes nothing else about it. -/
theorem preCopyMigrate_recording (transport : Transport τ) (s : τ) (kept : List MigrationPacket)
    (vm : VirtualMachine) (target : CString) (error : String) :
    preCopyMigrate transport.recording (s, kept) vm target error
      = (preCopyMigrate transport s vm target error).map fun p =>
        (p.1, p.2.1, p.2.2.recorded kept p.2.1) := by
  simp only [preCopyMigrate, MigrationProtocol.sendWithRetry_recording, Option.bind_eq_bind,
    Option.map_bind, Function.comp_def, Option.pure_def, Option.map_some]

/-- **What a `PreCopyMigrate` call sends.** It hands over one packet, any number of times, and that
carries the machine the call leaves. -/
theorem packets_of_preCopyMigrate {transport : Transport τ} {s : τ} {kept : List MigrationPacket}
    {vm vm' : VirtualMachine} (hvm : vm.Consistent) (hfits : vm.FitsPacket) {target : CString}
    {error : String} {packet : MigrationPacket} {outcome : SendOutcome (τ × List MigrationPacket)}
    (h : preCopyMigrate transport.recording (s, kept) vm target error
      = some (vm', packet, outcome)) :
    ∃ n, outcome.transport.2 = kept ++ List.replicate n packet ∧ vm'.CarriedBy packet := by
  obtain ⟨⟨r₁, vm₁, r₂, h₁, h₂⟩, hpacket, -⟩ := preCopyMigrate_cases h
  rw [preCopyMigrate_recording, Option.map_eq_some_iff] at h
  obtain ⟨⟨u, packet', outcome'⟩, -, heq⟩ := h
  cases heq
  have hfits₁ := hfits.runForSlice hvm h₁
  have hfits' := hfits₁.runForSlice (hvm.after_runForSlice h₁) h₂
  refine ⟨outcome'.answers.length, rfl, ?_⟩
  rw [hpacket]
  exact hfits'.carriedBy

end MigrationService

namespace HypervisorCore

/-- At this head `Run` dispatches a machine whose slice leaves it as `vm`, with a migration pending,
and then calls `PreCopyMigrate` for it, with this outcome. -/
structure Migrates (transport : Transport τ) (core : HypervisorCore τ) (vm vm' : VirtualMachine)
    (packet : MigrationPacket) (outcome : SendOutcome τ) : Prop where
  picked : ∃ u r, core.vms[core.pick.1]? = some u ∧ ¬ u.status.Done
    ∧ u.runForSlice u.config.execSlice = some (r, vm)
  called : ∃ target, vm.pendingMigrationTarget = some target
    ∧ MigrationService.preCopyMigrate transport core.transport vm target ""
      = some (vm', packet, outcome)

/-- The iteration from such a head logs that call, and goes on with the transport as the call leaves
it. -/
theorem Migrates.exists_next {transport : Transport τ} {core : HypervisorCore τ}
    {vm vm' : VirtualMachine} {packet : MigrationPacket} {outcome : SendOutcome τ}
    (h : core.Migrates transport vm vm' packet outcome) :
    ∃ core', body transport core = .next core' ∧ core'.transport = outcome.transport
      ∧ core'.log = core.log ++ .dispatched core.pick.1
        :: migrationEvents core.pick.1 vm'.status packet outcome := by
  obtain ⟨⟨u, r, hu, hlive, hrun⟩, target, htarget, hcall⟩ := h
  rcases body_cases transport (List.mem_of_getElem? hu) hlive with
    ⟨hdead, -⟩ | ⟨u', hu', -, hbody⟩
  · exact absurd (live_statuses_iff.mpr ⟨u, hu, hlive⟩) hdead
  rw [hu, Option.some.injEq] at hu'
  subst hu'
  rw [hbody, dispatch, hrun]
  simp only [Option.bind_eq_bind, Option.bind_some, htarget, hcall, Option.pure_def,
    Option.elim_some]
  refine ⟨_, rfl, rfl, ?_⟩
  simp only [List.append_assoc, List.singleton_append]

/-- The machines of a core are consistent and have no migration pending. -/
def AtRest (core : HypervisorCore τ) : Prop :=
  ∀ vm ∈ core.vms, vm.Consistent ∧ vm.pendingMigrationTarget = none

/-- New machines are at rest. -/
theorem atRest_create (machines : List (VmConfig × Program)) (scheduler : Scheduler) (s : τ) :
    AtRest { vms := machines.map fun p => .create p.1 p.2, scheduler, transport := s } := by
  intro vm hvm
  obtain ⟨p, -, rfl⟩ := List.mem_map.mp hvm
  exact ⟨VirtualMachine.consistent_create p.1 p.2, rfl⟩

/-- Machines are at rest at every head of the loop. -/
theorem atRest_of_reaches {transport : Transport τ} {core core' : HypervisorCore τ}
    (h : core.AtRest) (hreach : Loop.Reaches (body transport) core core') : core'.AtRest := by
  refine hreach.invariant AtRest (fun c c' hc hbody => ?_) h
  refine (turn_of_body hbody).forall_vms _ (fun vm vm' hvm hafter => ⟨?_, hafter.pending⟩) hc
  exact hafter.invariant VirtualMachine.Consistent (fun _ _ _ _ hu hrun => hu.after_runForSlice hrun)
    (fun _ hu => ⟨hu.coherent, hu.stopsAs⟩) hvm.1

/-- A `PreCopyMigrate` call of `Run` leaves the machine as it finds it. -/
theorem Migrates.eq {transport : Transport τ} {core : HypervisorCore τ} {vm vm' : VirtualMachine}
    {packet : MigrationPacket} {outcome : SendOutcome τ} (hrest : core.AtRest)
    (h : core.Migrates transport vm vm' packet outcome) : vm' = vm ∧ vm.Consistent := by
  obtain ⟨⟨u, r, hu, -, hrun⟩, target, htarget, hcall⟩ := h
  obtain ⟨hconsistent, hpending⟩ := hrest u (List.mem_of_getElem? hu)
  obtain ⟨-, -, hstays⟩ := VirtualMachine.blocked_of_pending hpending hrun (by simp [htarget])
  obtain ⟨⟨r₁, vm₁, r₂, h₁, h₂⟩, -, -⟩ := MigrationService.preCopyMigrate_cases hcall
  -- both rounds come to the `MIGRATE` again and stop there
  rw [hstays (by omega)] at h₁
  cases h₁
  rw [hstays (by omega)] at h₂
  cases h₂
  exact ⟨rfl, hconsistent.after_runForSlice hrun⟩

/-- **A migration sends a consistent state.** For every reachable machine that fits a packet and any
transport, the packets of one `PreCopyMigrate` call are one packet, and that carries the machine as
the call leaves it. A call made by `Run` on new machines leaves processor and bytes as they were, so
its packets carry the machine as it was before the call, too. -/
theorem migration_sendsConsistentState (transport : Transport τ) :
    (∀ vm, VirtualMachine.Reachable vm → vm.FitsPacket → ∀ s target error vm' packet outcome,
        MigrationService.preCopyMigrate transport.recording (s, []) vm target error
          = some (vm', packet, outcome) →
        (∀ sent ∈ outcome.transport.2, sent = packet) ∧ vm'.CarriedBy packet)
      ∧ ∀ (machines : List (VmConfig × Program)) (scheduler : Scheduler) (s : τ) (core),
        Loop.Reaches (body transport.recording)
          { vms := machines.map fun p => .create p.1 p.2, scheduler, transport := (s, []) } core →
        ∀ vm vm' packet outcome, core.Migrates transport.recording vm vm' packet outcome →
          (vm'.cpu = vm.cpu ∧ vm'.memory.bytes = vm.memory.bytes)
            ∧ (vm.FitsPacket → ∃ sent, outcome.transport.2 = core.transport.2 ++ sent
              ∧ (∀ p ∈ sent, p = packet) ∧ vm'.CarriedBy packet ∧ vm.CarriedBy packet) := by
  constructor
  · intro vm hvm hfits s target error vm' packet outcome h
    obtain ⟨n, hsent, hcarried⟩ :=
      MigrationService.packets_of_preCopyMigrate hvm.consistent hfits h
    refine ⟨fun sent hmem => ?_, hcarried⟩
    rw [hsent, List.nil_append] at hmem
    exact List.eq_of_mem_replicate hmem
  · intro machines scheduler s core hreach vm vm' packet outcome hmigrates
    obtain ⟨rfl, hvm⟩ :=
      hmigrates.eq (atRest_of_reaches (atRest_create machines scheduler (s, [])) hreach)
    refine ⟨⟨rfl, rfl⟩, fun hfits => ?_⟩
    obtain ⟨target, -, hcall⟩ := hmigrates.called
    obtain ⟨n, hsent, hcarried⟩ := MigrationService.packets_of_preCopyMigrate hvm hfits hcall
    exact ⟨_, hsent, fun p hp => List.eq_of_mem_replicate hp, hcarried, hcarried⟩

/-- A core under round robin with one new machine of 16 bytes about to run `migratingProgram`, over
a transport that keeps its packets. -/
def smallMigratingCore : HypervisorCore (Unit × List MigrationPacket) where
  vms := [VirtualMachine.create { name := [0x76, 0x6d], memoryBytes := 16 } migratingProgram]
  scheduler := .roundRobin {}
  transport := ((), [])

/-- The first iteration migrates the machine of that core. -/
theorem smallMigratingCore_migrates : ∃ vm vm' packet outcome,
    smallMigratingCore.Migrates acceptingTransport.recording vm vm' packet outcome := by
  refine ⟨_, _, _, _, ⟨_, _, rfl, ?_, rfl⟩, _, rfl, rfl⟩
  show ¬ VmStatus.Done .ready
  decide

/-- The theorem at that machine, migrated by a direct call and by the first iteration of `Run`. -/
theorem migration_sendsConsistentState_smallMigratingCore :
    (∃ vm' packet outcome, MigrationService.preCopyMigrate acceptingTransport.recording ((), [])
          (.create { name := [0x76, 0x6d], memoryBytes := 16 } migratingProgram) [0x68] ""
          = some (vm', packet, outcome)
        ∧ (∀ sent ∈ outcome.transport.2, sent = packet) ∧ vm'.CarriedBy packet)
      ∧ ∃ vm vm' packet outcome,
        smallMigratingCore.Migrates acceptingTransport.recording vm vm' packet outcome
          ∧ vm'.cpu = vm.cpu ∧ vm'.memory.bytes = vm.memory.bytes := by
  obtain ⟨hcall, hrun⟩ := migration_sendsConsistentState acceptingTransport
  constructor
  · have hsome : ∃ p, MigrationService.preCopyMigrate acceptingTransport.recording ((), [])
        (.create { name := [0x76, 0x6d], memoryBytes := 16 } migratingProgram) [0x68] "" = some p :=
      ⟨_, rfl⟩
    obtain ⟨⟨vm', packet, outcome⟩, h⟩ := hsome
    exact ⟨vm', packet, outcome, h,
      hcall _ (.create _ _) ⟨by decide, by decide⟩ () [0x68] "" vm' packet outcome h⟩
  · obtain ⟨vm, vm', packet, outcome, h⟩ := smallMigratingCore_migrates
    exact ⟨vm, vm', packet, outcome, h,
      (hrun [({ name := [0x76, 0x6d], memoryBytes := 16 }, migratingProgram)] (.roundRobin {}) ()
        _ .refl vm vm' packet outcome h).1⟩

end HypervisorCore

end VmmShowcase
