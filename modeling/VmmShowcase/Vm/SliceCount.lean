import VmmShowcase.Vm.Finishing
import VmmShowcase.Vm.PreciseStops

/-! # How many slices a machine takes

Alone, a machine retires a number of instructions and then stops at one that does not retire, or runs
off the end of its program. A slice of budget `j` leaves it halted or faulted if the budget covers the
stopping instruction, or the last instruction of the program. So the number of slices of one size up
to its end can be told from where it ends. -/

namespace VmmShowcase

namespace VirtualMachine

open BudgetedRun (Advances)

/-- Execution alone comes, after `m` instructions that retire, to a `HALT` or to an instruction that
faults. -/
def StopsAt (vm : VirtualMachine) (m : Nat) : Prop :=
  ∃ u inst u', applyInstructions m vm.start = some u ∧ u.fetch = some inst
    ∧ inst.opcode ≠ .migrate ∧ u.executeOne inst = some (0, u')

/-- Execution alone retires all instructions of the program, and nothing is left to fetch. -/
def RunsOff (vm : VirtualMachine) : Prop :=
  ∃ u, applyInstructions vm.program.size vm.start = some u ∧ u.fetch = none

/-- Instructions that retire are rounds that advance. -/
theorem advances_of_applyInstructions {n : Nat} {vm u : VirtualMachine}
    (h : applyInstructions n vm = some u) : Advances sliceStep n vm u := by
  induction n generalizing vm with
  | zero =>
      cases h
      exact .zero _
  | succ n ih =>
      simp only [applyInstructions, Option.bind_eq_bind, Option.bind_eq_some_iff] at h
      obtain ⟨inst, hf, ⟨retired, vm'⟩, hexec, h⟩ := h
      split at h
      · next hretired =>
          have hone : retired = 1 := hretired
          subst hone
          exact .succ (by simp [sliceStep, hf, hexec]) (ih h)
      · cases h

/-- The machine is live until a slice has a budget of `bound` instructions. -/
def EndsWithin (vm : VirtualMachine) (bound : Nat) : Prop :=
  ∀ j r vm', vm.runForSlice j = some (r, vm') → (vm'.status.Done ↔ bound ≤ j)

/-- A slice that ends where an instruction is left to fetch leaves the machine live. -/
theorem not_done_of_advances {vm u vm' : VirtualMachine} {j r : Nat} {inst : Instruction}
    (hlive : ¬ vm.status.Done) (hadvances : Advances sliceStep j vm.start u)
    (hf : u.fetch = some inst) (hrun : vm.runForSlice j = some (r, vm')) : ¬ vm'.status.Done := by
  have hrunning := status_of_advances hadvances rfl
  rw [runForSlice_of_not_done hlive, hadvances.run_eq, Option.map_some, Option.some.injEq,
    Prod.mk.injEq] at hrun
  obtain ⟨-, rfl⟩ := hrun
  rw [settle_of_fetch_some hf, if_pos hrunning]
  show ¬ VmStatus.Done .ready
  decide

/-- Where more rounds advance, an instruction is left to fetch. -/
theorem exists_fetch_of_advances {vm u : VirtualMachine} {n : Nat}
    (h : Advances sliceStep (n + 1) vm u) : ∃ inst, vm.fetch = some inst := by
  cases h with
  | succ hstep _ =>
      obtain ⟨inst, hf, -⟩ := executeOne_of_advance hstep
      exact ⟨inst, hf⟩

/-- A slice whose budget reaches a round that stops the machine for good leaves it halted or
faulted. -/
theorem done_of_advances {vm u u' vm' : VirtualMachine} {n j r : Nat} (hlive : ¬ vm.status.Done)
    (hadvances : Advances sliceStep n vm.start u) (hstop : u.sliceStep = some (false, u'))
    (hdone : u'.settle.status.Done) (hlt : n < j) (hrun : vm.runForSlice j = some (r, vm')) :
    vm'.status.Done := by
  obtain ⟨k, rfl⟩ := Nat.exists_eq_add_of_lt hlt
  rw [runForSlice_of_not_done hlive, Nat.add_assoc, hadvances.run_add,
    BudgetedRun.run_succ_stop hstop, Option.map_some, Option.map_some, Option.some.injEq,
    Prod.mk.injEq] at hrun
  obtain ⟨-, rfl⟩ := hrun
  exact hdone

/-- A machine that stops at instruction `m` ends within `m + 1` instructions. -/
theorem StopsAt.endsWithin {vm : VirtualMachine} {m : Nat} (h : vm.StopsAt m)
    (hlive : ¬ vm.status.Done) : vm.EndsWithin (m + 1) := by
  obtain ⟨u, inst, u', happly, hf, hop, hexec⟩ := h
  have hadvances := advances_of_applyInstructions happly
  have hstop : u.sliceStep = some (false, u') := by simp [sliceStep, hf, hexec]
  intro j r vm' hrun
  rcases Nat.lt_or_ge m j with hlt | hge
  · refine iff_of_true ?_ hlt
    refine done_of_advances hlive hadvances hstop ?_ hlt hrun
    rcases sliceStep_stop_cases hstop with ⟨-, hdone⟩ | ⟨hnot, -⟩
    · exact hdone
    · exact absurd (.stopped hf hop hexec) hnot
  · refine iff_of_false ?_ (by omega)
    obtain ⟨d, rfl⟩ := Nat.exists_eq_add_of_le hge
    obtain ⟨t, ht, hrest⟩ := hadvances.split
    cases d with
    | zero =>
        cases hrest
        exact not_done_of_advances hlive ht hf hrun
    | succ d =>
        obtain ⟨inst', hf'⟩ := exists_fetch_of_advances hrest
        exact not_done_of_advances hlive ht hf' hrun

/-- A machine that runs off the end of its program ends within the size of the program. -/
theorem RunsOff.endsWithin {vm : VirtualMachine} (h : vm.RunsOff) (hlive : ¬ vm.status.Done) :
    vm.EndsWithin vm.program.size := by
  obtain ⟨u, happly, hf⟩ := h
  have hadvances := advances_of_applyInstructions happly
  have hdone : u.settle.status.Done := by
    rw [settle_of_fetch_none hf]
    exact .inl rfl
  intro j r vm' hrun
  rcases Nat.lt_trichotomy j vm.program.size with hlt | rfl | hgt
  · refine iff_of_false ?_ (by omega)
    obtain ⟨d, hd⟩ := Nat.exists_eq_add_of_lt hlt
    rw [hd, Nat.add_assoc] at hadvances
    obtain ⟨t, ht, hrest⟩ := hadvances.split
    obtain ⟨inst, hf'⟩ := exists_fetch_of_advances hrest
    exact not_done_of_advances hlive ht hf' hrun
  · -- the budget is used up at the end of the program, where settling halts the machine
    refine iff_of_true ?_ (Nat.le_refl _)
    rw [runForSlice_of_not_done hlive, hadvances.run_eq, Option.map_some, Option.some.injEq,
      Prod.mk.injEq] at hrun
    obtain ⟨-, rfl⟩ := hrun
    exact hdone
  · refine iff_of_true ?_ (by omega)
    have hstop : u.sliceStep = some (false, u) := by rw [sliceStep, hf]
    exact done_of_advances hlive hadvances hstop hdone hgt hrun

/-- Rounds that advance use the program up. -/
theorem remaining_of_advances {vm u : VirtualMachine} {n : Nat} (h : Advances sliceStep n vm u) :
    u.remaining + n ≤ vm.remaining := by
  induction h with
  | zero => exact Nat.le_refl _
  | succ hstep _ ih =>
      have hlt := remaining_of_sliceStep_advance hstep
      omega

/-- A finishing machine comes to an instruction that does not retire, or has nothing left to fetch. -/
theorem Finishes.exists_stop {vm : VirtualMachine} (h : vm.Finishes) :
    ∃ n u, applyInstructions n vm = some u ∧ (u.fetch = none
      ∨ ∃ inst u', u.fetch = some inst ∧ inst.opcode ≠ .migrate ∧ u.executeOne inst = some (0, u')) := by
  induction h with
  | @ended vm hf => exact ⟨0, vm, rfl, .inl hf⟩
  | @stopped vm vm' inst hf hop hexec => exact ⟨0, vm, rfl, .inr ⟨inst, vm', hf, hop, hexec⟩⟩
  | @retired vm vm' inst hf hexec _ ih =>
      obtain ⟨n, u, happly, hstop⟩ := ih
      refine ⟨n + 1, u, ?_, hstop⟩
      simp only [applyInstructions, hf, hexec, Option.bind_eq_bind, Option.bind_some, if_true]
      exact happly

/-- A new machine that finishes stops at one of its instructions or runs off the end. -/
theorem stopsAt_or_runsOff {config : VmConfig} {program : Program}
    (h : (create config program).Finishes) :
    (∃ m, (create config program).StopsAt m) ∨ (create config program).RunsOff := by
  obtain ⟨n, u, happly, hstop⟩ := (h.status .running).exists_stop
  rcases hstop with hf | ⟨inst, u', hf, hop, hexec⟩
  · have hadvances := advances_of_applyInstructions happly
    have hpc := (applyInstructions_of_advances hadvances).2
    have hremaining := remaining_of_advances hadvances
    have hprogram : u.program = program :=
      hadvances.invariant (fun u => u.program = program) (fun s s' hs hstep => by
        obtain ⟨_, _, _, -, -, -, rfl⟩ := sliceStep_advance hstep
        exact hs) rfl
    -- the program counter has come from 0 to the end, one instruction at a time
    have hend := fetch_eq_none_iff.mp hf
    rw [hprogram, hpc] at hend
    have hsize : n = program.size := by
      have hstart : (create config program).start.cpu.pc.toNat = 0 := rfl
      have hall : (create config program).start.remaining = program.size := rfl
      have hend' : program.size ≤ (create config program).start.cpu.pc.toNat + n := hend
      have hremaining' : u.remaining + n ≤ (create config program).start.remaining := hremaining
      omega
    subst hsize
    exact .inr ⟨u, happly, hf⟩
  · exact .inl ⟨n, u, inst, u', happly, hf, hop, hexec⟩

/-! ## Slices of one size -/

/-- `vm` is `vm₀` after `n` slices of its configured size, each of them on a live machine. -/
inductive AfterSlicesOf (vm₀ : VirtualMachine) : Nat → VirtualMachine → Prop where
  | zero : AfterSlicesOf vm₀ 0 vm₀
  | succ {n r : Nat} {vm vm' : VirtualMachine} (h : AfterSlicesOf vm₀ n vm)
      (hlive : ¬ vm.status.Done) (hrun : vm.runForSlice vm₀.config.execSlice = some (r, vm')) :
      AfterSlicesOf vm₀ (n + 1) vm'

/-- Slices of one size are one slice. -/
theorem AfterSlicesOf.runForSlice {vm₀ vm : VirtualMachine} {n : Nat}
    (h : AfterSlicesOf vm₀ n vm) (hslice : 1 ≤ vm₀.config.execSlice) (hpos : 1 ≤ n) :
    ∃ r, vm₀.runForSlice (n * vm₀.config.execSlice) = some (r, vm) := by
  induction h with
  | zero => exact absurd hpos (by omega)
  | @succ n r vm vm' h _ hrun ih =>
      rcases Nat.eq_zero_or_pos n with rfl | hn
      · cases h
        rw [Nat.one_mul]
        exact ⟨r, hrun⟩
      · obtain ⟨r', hrun'⟩ := ih hn
        refine ⟨r' + r, ?_⟩
        rw [Nat.succ_mul, runForSlice_add vm₀ hslice, hrun', Option.bind_some, hrun, Option.map_some]

/-- **The number of slices.** A machine that ends within `bound` instructions is halted or faulted
after exactly as many slices as it takes to cover them, and after at least one. -/
theorem AfterSlicesOf.count_eq {vm₀ vm : VirtualMachine} {n bound : Nat}
    (h : AfterSlicesOf vm₀ n vm) (hlive : ¬ vm₀.status.Done) (hslice : 1 ≤ vm₀.config.execSlice)
    (hends : vm₀.EndsWithin bound) (hdone : vm.status.Done) :
    n = max 1 ((bound + vm₀.config.execSlice - 1) / vm₀.config.execSlice) := by
  cases h with
  | zero => exact absurd hdone hlive
  | @succ n r u vm h hlive' hrun =>
      obtain ⟨r₁, hrun₁⟩ := (h.succ hlive' hrun).runForSlice hslice (Nat.le_add_left 1 n)
      have hcovered := (hends _ _ _ hrun₁).mp hdone
      have hbefore : n = 0 ∨ n * vm₀.config.execSlice < bound := by
        rcases Nat.eq_zero_or_pos n with rfl | hn
        · exact .inl rfl
        · obtain ⟨r₂, hrun₂⟩ := h.runForSlice hslice hn
          exact .inr (Nat.lt_of_not_le fun hle => hlive' ((hends _ _ _ hrun₂).mpr hle))
      generalize vm₀.config.execSlice = k at hslice hcovered hbefore
      have hupper : (bound + k - 1) / k ≤ n + 1 := by
        rw [Nat.div_le_iff_le_mul_add_pred hslice, Nat.mul_comm]
        omega
      rcases hbefore with rfl | hbefore
      · omega
      · have hlower : n + 1 ≤ (bound + k - 1) / k := by
          rw [Nat.le_div_iff_mul_le hslice, Nat.succ_mul]
          omega
        omega

end VirtualMachine

end VmmShowcase
