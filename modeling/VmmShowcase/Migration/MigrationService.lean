import VmmShowcase.Migration.StateSerializer
import VmmShowcase.Vm.VirtualMachine

/-! # Sending a machine away

`include/migration/migration_protocol.hpp`, `src/migration/migration_protocol.cpp`,
`include/migration/migration_service.hpp` and `src/migration/migration_service.cpp`. The transport is
an interface the repository does not implement, so it is a parameter here: any two functions on any
type of transport states. -/

namespace VmmShowcase

/-- `IMigrationTransport`: the answer to a call and the transport's next state. -/
structure Transport (τ : Type) where
  handshake : τ → CString → Word → Bool × τ
  sendPacket : τ → MigrationPacket → Bool × τ

variable {τ : Type}

/-- What `SendWithRetry` returns and leaves, with the answers of the `SendPacket` calls it made. -/
structure SendOutcome (τ : Type) where
  ok : Bool
  error : String
  transport : τ
  answers : List Bool

namespace MigrationProtocol

/-- The loop of `SendWithRetry` with `attempts` rounds left. -/
def sendAttempts (transport : Transport τ) (packet : MigrationPacket) (error : String) :
    (attempts : Nat) → τ → SendOutcome τ
  | 0, s => { ok := false, error := "packet send retries exhausted", transport := s, answers := [] }
  | attempts + 1, s =>
      match transport.sendPacket s packet with
      | (true, s) => { ok := true, error, transport := s, answers := [true] }
      | (false, s) =>
          let outcome := sendAttempts transport packet error attempts s
          { outcome with answers := false :: outcome.answers }

/-- `SendWithRetry`. -/
def sendWithRetry (transport : Transport τ) (s : τ) (target : CString) (packet : MigrationPacket)
    (error : String) : SendOutcome τ :=
  match transport.handshake s target packet.version with
  | (false, s) => { ok := false, error := "handshake failed", transport := s, answers := [] }
  | (true, s) => sendAttempts transport packet error 3 s

/-- The loop succeeds exactly if a `SendPacket` call was answered with `true`. -/
theorem sendAttempts_ok_iff (transport : Transport τ) (packet : MigrationPacket) (error : String)
    (attempts : Nat) (s : τ) :
    (sendAttempts transport packet error attempts s).ok = true
      ↔ true ∈ (sendAttempts transport packet error attempts s).answers := by
  induction attempts generalizing s with
  | zero => simp [sendAttempts]
  | succ attempts ih =>
      rw [sendAttempts]
      match transport.sendPacket s packet with
      | (true, s) => simp
      | (false, s) => simpa using ih s

/-- **`SendWithRetry` succeeds exactly if a `SendPacket` call was answered with `true`.** -/
theorem sendWithRetry_ok_iff (transport : Transport τ) (s : τ) (target : CString)
    (packet : MigrationPacket) (error : String) :
    (sendWithRetry transport s target packet error).ok = true
      ↔ true ∈ (sendWithRetry transport s target packet error).answers := by
  unfold sendWithRetry
  match transport.handshake s target packet.version with
  | (false, s) => simp
  | (true, s) => exact sendAttempts_ok_iff transport packet error 3 s

end MigrationProtocol

namespace MigrationService

/-- `PreCopyMigrate`: the machine after the two pre-copy rounds, the packet made of its final
snapshot, and the outcome of sending it. -/
def preCopyMigrate (transport : Transport τ) (s : τ) (vm : VirtualMachine) (target : CString)
    (error : String) : Option (VirtualMachine × MigrationPacket × SendOutcome τ) := do
  let (_, vm) ← vm.runForSlice 10
  let (_, vm) ← vm.runForSlice 10
  let packet := StateSerializer.serialize vm.snapshot
  return (vm, packet, MigrationProtocol.sendWithRetry transport s target packet error)

/-- **Inversion of `PreCopyMigrate`.** The machine has run two slices, the packet holds its final
snapshot, and the call succeeds exactly if a `SendPacket` call was answered with `true`. -/
theorem preCopyMigrate_cases {transport : Transport τ} {s : τ} {vm vm' : VirtualMachine}
    {target : CString} {error : String} {packet : MigrationPacket} {outcome : SendOutcome τ}
    (h : preCopyMigrate transport s vm target error = some (vm', packet, outcome)) :
    (∃ r₁ vm₁ r₂, vm.runForSlice 10 = some (r₁, vm₁) ∧ vm₁.runForSlice 10 = some (r₂, vm'))
      ∧ packet = StateSerializer.serialize vm'.snapshot
      ∧ (outcome.ok = true ↔ true ∈ outcome.answers) := by
  simp only [preCopyMigrate, Option.bind_eq_bind, Option.bind_eq_some_iff] at h
  obtain ⟨⟨r₁, vm₁⟩, h₁, ⟨r₂, vm₂⟩, h₂, heq⟩ := h
  cases heq
  exact ⟨⟨r₁, vm₁, r₂, h₁, h₂⟩, rfl, MigrationProtocol.sendWithRetry_ok_iff ..⟩

end MigrationService

end VmmShowcase
