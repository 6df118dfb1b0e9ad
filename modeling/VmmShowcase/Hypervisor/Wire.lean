import VmmShowcase.Hypervisor.Dispatches
import VmmShowcase.Vm.Printing

/-! # What goes over the wire

All calls that a run makes to its transport are sessions, one for each migration in the log: a handshake
with the target, and behind an accepted one the same packet up to three times, until it is accepted. Target
and packet are those of the machine run alone to its first `MIGRATE`. Neither the scheduler nor the slices,
the other machines or the answers of the transport show in them, however often the machine is migrated. -/

namespace VmmShowcase

variable {τ : Type}

/-! ## A machine that is migrated again and again -/

namespace VirtualMachine

/-- A live machine at a `MIGRATE` is left blocked there with the target of the instruction. -/
theorem runForSlice_of_migrate {vm : VirtualMachine} (hlive : ¬ vm.status.Done) {inst : Instruction}
    (hf : vm.fetch = some inst) (hop : inst.opcode = .migrate) {k : Nat} (hk : 1 ≤ k) :
    vm.runForSlice k
      = some (0, { vm with pendingMigrationTarget := some inst.label, status := .blocked }) := by
  obtain ⟨k, rfl⟩ := Nat.exists_eq_add_of_le' hk
  have hstep : vm.start.sliceStep = some (false, _) := sliceStep_of_migrate hf hop
  have hsettle : ({ vm with pendingMigrationTarget := some inst.label, status := .blocked } :
      VirtualMachine).settle
        = { vm with pendingMigrationTarget := some inst.label, status := .blocked } :=
    settle_of_fetch_some hf
  rw [runForSlice_of_not_done hlive, BudgetedRun.run_succ_stop hstep, Option.map_some]
  exact congrArg (fun vm => some (0, vm)) hsettle

/-- A machine with a migration pending and the same one without come to the same state. -/
theorem runForSlice_clearMigrationIntent {vm vm' : VirtualMachine} {k r : Nat}
    (hpending : vm.pendingMigrationTarget = none) (h : vm.runForSlice k = some (r, vm'))
    (hsome : vm'.pendingMigrationTarget ≠ none) {k' : Nat} (hk' : 1 ≤ k') :
    vm'.clearMigrationIntent.runForSlice k' = some (0, vm') := by
  obtain ⟨hblocked, -, hstays⟩ := blocked_of_pending hpending h hsome
  obtain ⟨inst, hf, hop⟩ := fetch_of_pending hpending h hsome
  have hlive : ¬ vm'.status.Done := by
    rw [hblocked]
    decide
  have hrun := runForSlice_of_migrate hlive hf hop (Nat.le_refl 1)
  rw [hstays (Nat.le_refl 1)] at hrun
  have hlive' : ¬ vm'.clearMigrationIntent.status.Done := hlive
  have hf' : vm'.clearMigrationIntent.fetch = some inst := hf
  rw [runForSlice_of_migrate hlive' hf' hop hk']
  exact hrun.symm

/-- **A dispatch keeps the outcome**, also when it migrates the machine. -/
theorem AfterDispatch.sameOutcome {vm vm' : VirtualMachine} (h : AfterDispatch vm vm')
    (hpending : vm.pendingMigrationTarget = none) : SameOutcome vm vm' := by
  cases h with
  | slice hrun => exact sameOutcome_runForSlice hrun
  | migration hmigration =>
      obtain @⟨vm₁, vm₂, vm₃, _, _, _, h₁, hsome, h₂, h₃⟩ := hmigration
      obtain ⟨-, -, hstays⟩ := blocked_of_pending hpending h₁ hsome
      obtain ⟨inst, hf, -⟩ := fetch_of_pending hpending h₁ hsome
      -- the pre-copy slices find the machine at its `MIGRATE`, and leave it there
      rw [hstays (by omega)] at h₂
      cases h₂
      rw [hstays (by omega)] at h₃
      cases h₃
      intro budget hbudget
      have hpc := pc_lt_of_fetch hf
      rw [(sameProgram_runForSlice h₁).program_eq] at hpc
      have hpos : 1 ≤ budget := by omega
      rw [← sameOutcome_runForSlice h₁ budget hbudget, hstays hpos,
        runForSlice_clearMigrationIntent hpending h₁ hsome hpos]

/-- The target and the packet of the machine's migration when it runs alone, unbounded, if it comes to a
`MIGRATE`. -/
def migrationAlone (vm : VirtualMachine) : Option (CString × MigrationPacket) := do
  let (_, vm) ← vm.runForSlice vm.program.size
  let target ← vm.pendingMigrationTarget
  return (target, StateSerializer.serialize vm.snapshot)

/-- A machine that is left with a migration pending by a slice has come to its migration. -/
theorem migrationAlone_eq {vm₀ vm vm' : VirtualMachine} (houtcome : SameOutcome vm₀ vm)
    (hprogram : vm.program = vm₀.program) (hpending : vm.pendingMigrationTarget = none) {k r : Nat}
    (h : vm.runForSlice k = some (r, vm')) {target : CString}
    (htarget : vm'.pendingMigrationTarget = some target) :
    vm₀.migrationAlone = some (target, StateSerializer.serialize vm'.snapshot) := by
  have hsome : vm'.pendingMigrationTarget ≠ none := by simp [htarget]
  obtain ⟨-, -, hstays⟩ := blocked_of_pending hpending h hsome
  obtain ⟨inst, hf, -⟩ := fetch_of_pending hpending h hsome
  have hpc := pc_lt_of_fetch hf
  rw [(sameProgram_runForSlice h).program_eq, hprogram] at hpc
  have hpos : 1 ≤ vm₀.program.size := by omega
  -- the unbounded slice stops at the same `MIGRATE`
  have halone := houtcome vm₀.program.size (Nat.le_refl _)
  rw [← sameOutcome_runForSlice h vm₀.program.size (by rw [hprogram]), hstays hpos,
    Option.map_some] at halone
  obtain ⟨⟨r', u⟩, hrun, hu⟩ := Option.map_eq_some_iff.mp halone.symm
  have hu : u = vm' := hu
  subst hu
  simp only [migrationAlone, hrun, htarget, Option.bind_eq_bind, Option.bind_some, Option.pure_def]

end VirtualMachine

/-! ## Sessions -/

/-- A call of the transport, with its answer. -/
inductive WireCall where
  | handshake (target : CString) (version : Word) (accepted : Bool)
  | sendPacket (packet : MigrationPacket) (accepted : Bool)
  deriving DecidableEq

/-- The transport that also keeps, in order, the calls that are made and their answers. -/
def Transport.tapped (transport : Transport τ) : Transport (τ × List WireCall) where
  handshake := fun s target version =>
    let (accepted, s') := transport.handshake s.1 target version
    (accepted, (s', s.2 ++ [.handshake target version accepted]))
  sendPacket := fun s packet =>
    let (accepted, s') := transport.sendPacket s.1 packet
    (accepted, (s', s.2 ++ [.sendPacket packet accepted]))

/-- The calls that offer a packet, and whether it is accepted in the end. -/
inductive Offers (packet : MigrationPacket) : (attempts : Nat) → Bool → List WireCall → Prop where
  | exhausted : Offers packet 0 false []
  | accepted {attempts : Nat} : Offers packet (attempts + 1) true [.sendPacket packet true]
  | refused {attempts : Nat} {ok : Bool} {calls : List WireCall} (h : Offers packet attempts ok calls) :
      Offers packet (attempts + 1) ok (.sendPacket packet false :: calls)

/-- The calls of one migration, and whether it succeeds: a handshake with the target, and if that is
accepted up to three offers of one packet. -/
inductive Session (target : CString) (packet : MigrationPacket) : Bool → List WireCall → Prop where
  | refused : Session target packet false [.handshake target packet.version false]
  | offered {ok : Bool} {calls : List WireCall} (h : Offers packet 3 ok calls) :
      Session target packet ok (.handshake target packet.version true :: calls)

namespace MigrationProtocol

/-- The loop of `SendWithRetry` offers its packet. -/
theorem offers_sendAttempts (transport : Transport τ) (packet : MigrationPacket) (error : String)
    (attempts : Nat) (s : τ) (kept : List WireCall) :
    ∃ calls, (sendAttempts transport.tapped packet error attempts (s, kept)).transport.2 = kept ++ calls
      ∧ Offers packet attempts (sendAttempts transport.tapped packet error attempts (s, kept)).ok
        calls := by
  induction attempts generalizing s kept with
  | zero => exact ⟨[], (List.append_nil kept).symm, .exhausted⟩
  | succ attempts ih =>
      have hsend : transport.tapped.sendPacket (s, kept) packet
          = ((transport.sendPacket s packet).1, ((transport.sendPacket s packet).2,
            kept ++ [.sendPacket packet (transport.sendPacket s packet).1])) := rfl
      rw [sendAttempts, hsend]
      -- one answer of the transport, and the rest of the loop
      generalize transport.sendPacket s packet = p
      obtain ⟨accepted, s'⟩ := p
      cases accepted with
      | true => exact ⟨[.sendPacket packet true], rfl, .accepted⟩
      | false =>
          obtain ⟨calls, hcalls, hoffers⟩ := ih s' (kept ++ [.sendPacket packet false])
          exact ⟨.sendPacket packet false :: calls, hcalls.trans (List.append_cons ..).symm,
            .refused hoffers⟩

/-- **`SendWithRetry` is one session.** -/
theorem session_sendWithRetry (transport : Transport τ) (s : τ × List WireCall) (target : CString)
    (packet : MigrationPacket) (error : String) :
    ∃ calls, (sendWithRetry transport.tapped s target packet error).transport.2 = s.2 ++ calls
      ∧ Session target packet (sendWithRetry transport.tapped s target packet error).ok calls := by
  obtain ⟨s, kept⟩ := s
  have hshake : transport.tapped.handshake (s, kept) target packet.version
      = ((transport.handshake s target packet.version).1,
        ((transport.handshake s target packet.version).2,
          kept ++ [.handshake target packet.version (transport.handshake s target packet.version).1])) :=
    rfl
  rw [sendWithRetry, hshake]
  generalize transport.handshake s target packet.version = p
  obtain ⟨accepted, s'⟩ := p
  cases accepted with
  | false => exact ⟨[.handshake target packet.version false], rfl, .refused⟩
  | true =>
      obtain ⟨calls, hcalls, hoffers⟩ := offers_sendAttempts transport packet error 3 s'
        (kept ++ [.handshake target packet.version true])
      exact ⟨.handshake target packet.version true :: calls, hcalls.trans (List.append_cons ..).symm,
        .offered hoffers⟩

end MigrationProtocol

/-- The machine whose migration ends with an event, and whether it succeeds. -/
def Event.migrationEnd : Event → Option (Nat × Bool)
  | .handedOver idx => some (idx, true)
  | .migrationFailed idx _ => some (idx, false)
  | _ => none

/-- The migrations of a run, in order. -/
def migrationsOf (log : List Event) : List (Nat × Bool) := log.filterMap Event.migrationEnd

namespace HypervisorCore

open VirtualMachine (create AfterDispatch SameOutcome)

/-- A migration is one entry. -/
theorem migrationsOf_migrationEvents (idx : Nat) (status : VmStatus) (packet : MigrationPacket)
    (outcome : SendOutcome τ) :
    migrationsOf (migrationEvents idx status packet outcome) = [(idx, outcome.ok)] := by
  have hsent : migrationsOf (outcome.answers.map (.sent idx status packet)) = [] := by
    refine List.filterMap_eq_nil_iff.mpr fun e he => ?_
    obtain ⟨accepted, -, rfl⟩ := List.mem_map.mp he
    rfl
  rw [migrationEvents, migrationsOf, List.filterMap_append]
  rw [migrationsOf] at hsent
  rw [hsent]
  cases hok : outcome.ok <;> rfl

/-- What a dispatch does to transport and log: nothing but the entry of the slice, or one migration. -/
theorem wire_of_dispatch {transport : Transport τ} {core core' : HypervisorCore τ} {idx : Nat}
    {vm : VirtualMachine} (hpending : vm.pendingMigrationTarget = none)
    (h : core.dispatch transport idx vm = some core') :
    (core'.transport = core.transport ∧ migrationsOf core'.log = migrationsOf core.log)
      ∨ ∃ r vm₁ target, vm.runForSlice vm.config.execSlice = some (r, vm₁)
        ∧ vm₁.pendingMigrationTarget = some target
        ∧ core'.transport = (MigrationProtocol.sendWithRetry transport core.transport target
          (StateSerializer.serialize vm₁.snapshot) "").transport
        ∧ migrationsOf core'.log = migrationsOf core.log
          ++ [(idx, (MigrationProtocol.sendWithRetry transport core.transport target
            (StateSerializer.serialize vm₁.snapshot) "").ok)] := by
  simp only [dispatch, Option.bind_eq_bind, Option.bind_eq_some_iff] at h
  obtain ⟨⟨r, vm₁⟩, h₁, h⟩ := h
  cases htarget : vm₁.pendingMigrationTarget with
  | none =>
      simp only [htarget] at h
      cases h
      refine .inl ⟨rfl, ?_⟩
      rw [migrationsOf, List.filterMap_append]
      exact List.append_nil _
  | some target =>
      -- both pre-copy slices are at the `MIGRATE`, so what is sent is the machine after its slice
      obtain ⟨-, -, hstays⟩ := VirtualMachine.blocked_of_pending hpending h₁ (by simp [htarget])
      have hstays : vm₁.runForSlice 10 = some (0, vm₁) := hstays (by omega)
      simp only [htarget, MigrationService.preCopyMigrate, hstays, Option.bind_eq_bind, Option.bind_some,
        Option.pure_def, Option.some.injEq] at h
      subst h
      refine .inr ⟨r, vm₁, target, h₁, htarget, rfl, ?_⟩
      rw [← migrationsOf_migrationEvents idx vm₁.status (StateSerializer.serialize vm₁.snapshot)]
      have hdispatched : [Event.dispatched idx].filterMap Event.migrationEnd = [] := rfl
      simp only [migrationsOf, List.filterMap_append, hdispatched, List.append_nil]

/-- A session of a migration of one of these machines, as it is when the machine runs alone. -/
def SessionOf (machines : List (VmConfig × Program)) (migration : Nat × Bool) (calls : List WireCall) :
    Prop :=
  ∃ p target packet, machines[migration.1]? = some p
    ∧ (create p.1 p.2).migrationAlone = some (target, packet)
    ∧ Session target packet migration.2 calls

/-- The machines of a core come to what these come to alone. -/
structure Follows (machines : List (VmConfig × Program)) (core : HypervisorCore τ) : Prop where
  length_eq : core.vms.length = machines.length
  pending : ∀ vm ∈ core.vms, vm.pendingMigrationTarget = none
  outcome : ∀ (i : Nat) (vm : VirtualMachine), core.vms[i]? = some vm → ∃ p, machines[i]? = some p
    ∧ vm.program = p.2 ∧ SameOutcome (create p.1 p.2) vm

/-- New machines come to what they come to alone. -/
theorem follows_newCore (machines : List (VmConfig × Program)) (scheduler : Scheduler) (t : τ) :
    Follows machines (newCore machines scheduler t) := by
  refine ⟨List.length_map _, fun vm hvm => ?_, fun i vm hvm => ?_⟩
  · obtain ⟨p, -, rfl⟩ := List.mem_map.mp hvm
    rfl
  · rw [newCore, List.getElem?_map, Option.map_eq_some_iff] at hvm
    obtain ⟨p, hp, rfl⟩ := hvm
    exact ⟨p, hp, rfl, fun _ _ => rfl⟩

/-- An iteration keeps the machines coming to what they come to alone. -/
theorem Follows.turn {machines : List (VmConfig × Program)} {core core' : HypervisorCore τ}
    (h : Follows machines core) (hturn : core.Turn core') : Follows machines core' := by
  have hpending := hturn.forall_vms (fun vm => vm.pendingMigrationTarget = none)
    (fun _ _ _ hafter => hafter.pending) h.pending
  cases hturn with
  | skip => exact ⟨h.length_eq, h.pending, h.outcome⟩
  | @dispatch vm vm' _ hvm hlive hafter hdispatched =>
      have hvms : core'.vms = core.vms.set core.pick.1 vm' := hdispatched.vms_eq
      refine ⟨by rw [hvms, List.length_set, h.length_eq], hpending, fun i u hu => ?_⟩
      rw [hvms] at hu
      by_cases hi : core.pick.1 = i
      · subst hi
        rw [List.getElem?_set_self (List.getElem?_eq_some_iff.mp hvm).1, Option.some.injEq] at hu
        subst hu
        obtain ⟨p, hp, hprogram, houtcome⟩ := h.outcome core.pick.1 vm hvm
        refine ⟨p, hp, hafter.sameProgram.program_eq.trans hprogram, fun budget hbudget => ?_⟩
        have hbudget' : vm.program.size ≤ budget := by rwa [hprogram]
        -- the machine that was dispatched keeps its outcome, the others keep everything
        have hkeeps := hafter.sameOutcome (h.pending vm (List.mem_of_getElem? hvm)) budget hbudget'
        exact hkeeps.trans (houtcome budget hbudget)
      · rw [List.getElem?_set_ne hi] at hu
        exact h.outcome i u hu

/-- The calls so far are sessions of the migrations in the log. -/
structure InSessions (machines : List (VmConfig × Program)) (core : HypervisorCore (τ × List WireCall)) :
    Prop where
  follows : Follows machines core
  sessions : ∃ sessions, core.transport.2 = sessions.flatten
    ∧ List.Forall₂ (SessionOf machines) (migrationsOf core.log) sessions

/-- An iteration adds a session for the migration it makes, or no call. -/
theorem InSessions.next {transport : Transport τ} {machines : List (VmConfig × Program)}
    {core core' : HypervisorCore (τ × List WireCall)} (h : InSessions machines core)
    (hbody : body transport.tapped core = .next core') : InSessions machines core' := by
  have hfollows := h.follows.turn (turn_of_body hbody)
  obtain ⟨sessions, hsessions, hmigrations⟩ := h.sessions
  rcases cases_of_body hbody with ⟨-, -, -, -, rfl⟩ | ⟨vm, hvm, -, hdispatch⟩
  · exact ⟨hfollows, sessions, hsessions, hmigrations⟩
  have hnone := h.follows.pending vm (List.mem_of_getElem? hvm)
  rcases wire_of_dispatch hnone hdispatch with ⟨htransport, hlog⟩
    | ⟨r, vm₁, target, hrun, htarget, htransport, hlog⟩
  · refine ⟨hfollows, sessions, ?_, ?_⟩
    · rw [htransport]
      exact hsessions
    · rw [hlog]
      exact hmigrations
  · -- a migration is one more session, and one more entry
    obtain ⟨p, hp, hprogram, houtcome⟩ := h.follows.outcome core.pick.1 vm hvm
    have halone := VirtualMachine.migrationAlone_eq houtcome hprogram hnone hrun htarget
    obtain ⟨calls, hcalls, hsession⟩ := MigrationProtocol.session_sendWithRetry transport
      core.transport target (StateSerializer.serialize vm₁.snapshot) ""
    refine ⟨hfollows, sessions ++ [calls], ?_, ?_⟩
    · rw [htransport, List.flatten_append, List.flatten_singleton, ← hsessions]
      exact hcalls
    · rw [hlog]
      exact List.rel_append hmigrations (.cons ⟨p, target, _, hp, halone, hsession⟩ .nil)

/-- **What goes over the wire.** For any new machines, any scheduler and any transport, the calls made at
any head of the loop of `Run` are sessions, one for each migration in the log and with its end, and target
and packet of a session are those of the machine run alone. -/
theorem run_sessions (machines : List (VmConfig × Program)) (scheduler : Scheduler) (t : τ)
    (transport : Transport τ) {core : HypervisorCore (τ × List WireCall)}
    (hreach : Loop.Reaches (body transport.tapped) (newCore machines scheduler (t, [])) core) :
    ∃ sessions, core.transport.2 = sessions.flatten
      ∧ List.Forall₂ (SessionOf machines) (migrationsOf core.log) sessions := by
  have hnew : InSessions machines (newCore machines scheduler (t, [])) :=
    ⟨follows_newCore machines scheduler (t, []), [], rfl, .nil⟩
  exact (hreach.invariant (InSessions machines) (fun _ _ h hbody => h.next hbody) hnew).sessions

/-- The theorem behind the first dispatch of a machine that migrates. -/
theorem run_sessions_migrating : ∃ core : HypervisorCore (Unit × List WireCall),
    migrationsOf core.log = [(0, true)] ∧ ∃ sessions, core.transport.2 = sessions.flatten
      ∧ List.Forall₂ (SessionOf [({ name := [0x61], memoryBytes := 16 }, migratingProgram)])
        (migrationsOf core.log) sessions :=
  ⟨_, rfl, run_sessions [({ name := [0x61], memoryBytes := 16 }, migratingProgram)] (.mlfq {}) ()
    acceptingTransport (.single rfl)⟩

end HypervisorCore

end VmmShowcase
