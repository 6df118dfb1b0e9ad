import VmmShowcase.Hypervisor.SchedulingTransparency
import VmmShowcase.Vm.SliceCount

/-! # Every slice is counted once

For programs without `MIGRATE` a dispatch is one slice of a live machine, and it is counted for the
name of that machine. With distinct names the count of a name is the number of slices of one machine,
and when `Run` returns this is the number of slices up to the end of its program, whatever the
scheduler and the other machines did in between. -/

namespace VmmShowcase

namespace MetricsTracer

/-- `Stats().dispatchCountByVm[name]`. -/
def dispatches (metrics : MetricsTracer) (name : CString) : Nat :=
  (metrics.stats.dispatchCountByVm name).getD 0

/-- Counting instructions counts no dispatch. -/
@[simp] theorem dispatches_recordInstructions (metrics : MetricsTracer) (vmName name : CString)
    (count : Nat) :
    (metrics.recordInstructions vmName count).dispatches name = metrics.dispatches name := rfl

/-- Counting a dispatch counts it for its name only. -/
theorem dispatches_recordDispatch (metrics : MetricsTracer) (vmName name : CString) :
    (metrics.recordDispatch vmName).dispatches name
      = metrics.dispatches name + if vmName = name then 1 else 0 := by
  have hinsert : (metrics.recordDispatch vmName).dispatches name
      = (metrics.stats.dispatchCountByVm.insert vmName (metrics.dispatches vmName + 1)
          name).getD 0 := rfl
  rw [hinsert]
  by_cases h : vmName = name
  · subst h
    rw [if_pos rfl, Table.insert_self, Option.getD_some]
  · rw [if_neg h, Table.insert_of_ne _ _ (Ne.symm h), Nat.add_zero, dispatches]

/-- A name with a positive count has an entry. -/
theorem dispatchCountByVm_eq_some {metrics : MetricsTracer} {name : CString} {n : Nat}
    (h : metrics.dispatches name = n) (hpos : 0 < n) :
    metrics.stats.dispatchCountByVm name = some n := by
  rw [dispatches] at h
  cases hcount : metrics.stats.dispatchCountByVm name with
  | none =>
      rw [hcount, Option.getD_none] at h
      omega
  | some count =>
      rw [hcount, Option.getD_some] at h
      rw [h]

end MetricsTracer

namespace HypervisorCore

open VirtualMachine (AfterSlicesOf SameProgram create)

variable {τ : Type} {transport : Transport τ}

/-- **A dispatch of a program without `MIGRATE`** is one slice, counted once. -/
theorem slice_of_dispatch {core core' : HypervisorCore τ} {idx : Nat} {vm : VirtualMachine}
    (hfree : vm.program.MigrateFree) (hpending : vm.pendingMigrationTarget = none)
    (h : core.dispatch transport idx vm = some core') :
    ∃ r vm', vm.runForSlice vm.config.execSlice = some (r, vm') ∧ vm'.pendingMigrationTarget = none
      ∧ core'.vms = core.vms.set idx vm'
      ∧ ∀ name, core'.metrics.dispatches name
        = core.metrics.dispatches name + if vm.config.name = name then 1 else 0 := by
  simp only [dispatch, Option.bind_eq_bind, Option.bind_eq_some_iff] at h
  obtain ⟨⟨r, vm'⟩, hrun, h⟩ := h
  have hpending' := VirtualMachine.pending_runForSlice hfree hpending hrun
  simp only [hpending'] at h
  cases h
  refine ⟨r, vm', hrun, hpending', rfl, fun name => ?_⟩
  rw [MetricsTracer.dispatches_recordInstructions, MetricsTracer.dispatches_recordDispatch]

/-- Every machine is what as many slices as are counted for its name have made of the one that was
added. -/
structure Dispatches (added : List VirtualMachine) (core : HypervisorCore τ) : Prop where
  length_eq : core.vms.length = added.length
  slices : ∀ (i : Nat) vm₀, added[i]? = some vm₀ → ∃ vm, core.vms[i]? = some vm
    ∧ SameProgram vm₀ vm ∧ vm.pendingMigrationTarget = none
    ∧ AfterSlicesOf vm₀ (core.metrics.dispatches vm₀.config.name) vm

/-- Machines at different places have different names. -/
theorem name_ne_of_nodup {added : List VirtualMachine}
    (hnames : (added.map fun vm => vm.config.name).Nodup) {i j : Nat} {vm vm' : VirtualMachine}
    (hi : added[i]? = some vm) (hj : added[j]? = some vm') (hne : i ≠ j) :
    vm.config.name ≠ vm'.config.name := by
  intro hname
  have hlt : i < (added.map fun vm => vm.config.name).length := by
    rw [List.length_map]
    exact (List.getElem?_eq_some_iff.mp hi).1
  refine hne ((List.getElem?_inj hlt hnames).mp ?_)
  rw [List.getElem?_map, List.getElem?_map, hi, hj, Option.map_some, Option.map_some, hname]

/-- A dispatch is one more slice of the machine picked, counted for no other. -/
theorem Dispatches.of_dispatch {added : List VirtualMachine} {core core' : HypervisorCore τ}
    (hnames : (added.map fun vm => vm.config.name).Nodup)
    (hfree : ∀ vm ∈ added, vm.program.MigrateFree) (h : Dispatches added core) {idx : Nat}
    {vm : VirtualMachine} (hvm : core.vms[idx]? = some vm) (hlive : ¬ vm.status.Done)
    (hdispatch : core.dispatch transport idx vm = some core') : Dispatches added core' := by
  have hlt : idx < core.vms.length := (List.getElem?_eq_some_iff.mp hvm).1
  obtain ⟨vm₀, hvm₀⟩ : ∃ vm₀, added[idx]? = some vm₀ :=
    ⟨_, List.getElem?_eq_getElem (h.length_eq ▸ hlt)⟩
  obtain ⟨u, hu, hsame, hpending, hslices⟩ := h.slices idx vm₀ hvm₀
  rw [hvm, Option.some.injEq] at hu
  subst hu
  have hfree' : vm.program.MigrateFree := by
    rw [hsame.program_eq]
    exact hfree vm₀ (List.mem_of_getElem? hvm₀)
  obtain ⟨r, vm', hrun, hpending', hvms, hcount⟩ := slice_of_dispatch hfree' hpending hdispatch
  refine ⟨by rw [hvms, List.length_set, h.length_eq], ?_⟩
  intro i vm₁ hvm₁
  rw [hvms]
  by_cases hi : idx = i
  · -- the machine picked
    subst hi
    rw [hvm₀, Option.some.injEq] at hvm₁
    subst hvm₁
    have hsame' := VirtualMachine.sameProgram_runForSlice hrun
    refine ⟨vm', List.getElem?_set_self hlt, ⟨?_, ?_⟩, hpending', ?_⟩
    · rw [hsame'.config_eq, hsame.config_eq]
    · rw [hsame'.program_eq, hsame.program_eq]
    · rw [hcount, hsame.config_eq, if_pos rfl]
      rw [hsame.config_eq] at hrun
      exact hslices.succ hlive hrun
  · obtain ⟨w, hw, hsame₁, hpending₁, hslices₁⟩ := h.slices i vm₁ hvm₁
    refine ⟨w, by rw [List.getElem?_set_ne hi]; exact hw, hsame₁, hpending₁, ?_⟩
    have hne := name_ne_of_nodup hnames hvm₀ hvm₁ hi
    rw [hcount, hsame.config_eq, if_neg hne, Nat.add_zero]
    exact hslices₁

/-- An iteration keeps the counts. -/
theorem Dispatches.next {added : List VirtualMachine} {core core' : HypervisorCore τ}
    (hnames : (added.map fun vm => vm.config.name).Nodup)
    (hfree : ∀ vm ∈ added, vm.program.MigrateFree) (h : Dispatches added core)
    (hbody : body transport core = .next core') : Dispatches added core' := by
  have hskip : Dispatches added { core with scheduler := core.pick.2 } := ⟨h.length_eq, h.slices⟩
  rcases cases_of_body hbody with ⟨-, -, -, -, rfl⟩ | ⟨vm, hvm, hlive, hdispatch⟩
  · exact hskip
  · exact hskip.of_dispatch hnames hfree hvm hlive hdispatch

/-- The core with these new machines. -/
def newCore (machines : List (VmConfig × Program)) (scheduler : Scheduler) (transport : τ) :
    HypervisorCore τ :=
  { vms := machines.map fun p => create p.1 p.2, scheduler, transport }

/-- New machines have been dispatched never. -/
theorem dispatches_newCore (machines : List (VmConfig × Program)) (scheduler : Scheduler) (s : τ) :
    Dispatches (machines.map fun p => create p.1 p.2) (newCore machines scheduler s) := by
  refine ⟨rfl, fun i vm₀ hvm₀ => ⟨vm₀, hvm₀, ⟨rfl, rfl⟩, ?_, .zero⟩⟩
  rw [List.getElem?_map, Option.map_eq_some_iff] at hvm₀
  obtain ⟨p, -, rfl⟩ := hvm₀
  rfl

/-- When `Run` returns, a machine that was added has had, halted or faulted, the slices counted for
it. -/
theorem afterSlicesOf_of_run {machines : List (VmConfig × Program)}
    (hnames : (machines.map fun p => p.1.name).Nodup) (hfree : ∀ p ∈ machines, p.2.MigrateFree)
    {scheduler : Scheduler} {s : τ} {core : HypervisorCore τ}
    (hrun : Run transport (newCore machines scheduler s) core) {p : VmConfig × Program}
    (hp : p ∈ machines) : ∃ vm, vm.status.Done
      ∧ AfterSlicesOf (create p.1 p.2) (core.metrics.dispatches p.1.name) vm := by
  obtain ⟨core', hreach, hexit⟩ := Loop.Terminates.exists_exit hrun
  obtain ⟨rfl, hdone⟩ := body_eq_exit_iff.mp hexit
  have hnames' : ((machines.map fun p => create p.1 p.2).map fun vm => vm.config.name).Nodup := by
    rw [List.map_map]
    exact hnames
  have hfree' : ∀ vm ∈ machines.map fun p => create p.1 p.2, vm.program.MigrateFree := by
    intro vm hvm
    obtain ⟨q, hq, rfl⟩ := List.mem_map.mp hvm
    exact hfree q hq
  have hdispatches := hreach.invariant (Dispatches (machines.map fun p => create p.1 p.2))
    (fun _ _ h hbody => h.next hnames' hfree' hbody) (dispatches_newCore machines scheduler s)
  obtain ⟨i, hi⟩ := List.getElem?_of_mem hp
  obtain ⟨vm, hvm, -, -, hslices⟩ := hdispatches.slices i (create p.1 p.2)
    (by rw [List.getElem?_map, hi, Option.map_some])
  exact ⟨vm, hdone vm (List.mem_of_getElem? hvm), hslices⟩

/-- New machines with register operands in range and no `MIGRATE` are run to their ends. -/
theorem exists_run_newCore {machines : List (VmConfig × Program)}
    (hfree : ∀ p ∈ machines, p.2.MigrateFree) (hregs : ∀ p ∈ machines, p.2.RegistersInRange)
    (hslice : ∀ p ∈ machines, 1 ≤ p.1.execSlice) {scheduler : Scheduler}
    (habove : scheduler = .priority → ∀ p ∈ machines, -1000000 < p.1.priority) (s : τ)
    (transport : Transport τ) :
    ∃ core, Run transport (newCore machines scheduler s) core := by
  have hterminating : (newCore machines scheduler s).Terminating := by
    refine ⟨?_, ?_, ?_⟩
    · intro vm hvm
      obtain ⟨p, hp, rfl⟩ := List.mem_map.mp hvm
      exact .inr (VirtualMachine.finishes_of_migrateFree (hregs p hp) (hfree p hp))
    · intro vm hvm
      obtain ⟨p, hp, rfl⟩ := List.mem_map.mp hvm
      exact hslice p hp
    · intro hpriority vm hvm
      obtain ⟨p, hp, rfl⟩ := List.mem_map.mp hvm
      exact habove hpriority p hp
  exact hterminating.exists_run transport

/-- **Dispatch accounting.** New machines with distinct names, programs without `MIGRATE` and nonempty
slices, run under any of the three schedulers, with priorities the priority scheduler can see: `Run`
returns if their register operands are in range and signed arithmetic wraps, the least number divided by -1
too. When it returns, the program of every machine alone stops at some instruction `m` or runs off its end;
its name is counted `m / k + 1` times in the first case, and as often as slices of `k` cover the program,
but at least once, in the second one. -/
theorem run_dispatchCounts {machines : List (VmConfig × Program)}
    (hnames : (machines.map fun p => p.1.name).Nodup) (hfree : ∀ p ∈ machines, p.2.MigrateFree)
    (hslice : ∀ p ∈ machines, 1 ≤ p.1.execSlice) {scheduler : Scheduler}
    (habove : scheduler = .priority → ∀ p ∈ machines, -1000000 < p.1.priority) (s : τ)
    (transport : Transport τ) :
    ((∀ p ∈ machines, p.2.RegistersInRange) →
        ∃ core, Run transport (newCore machines scheduler s) core)
      ∧ ∀ core, Run transport (newCore machines scheduler s) core → ∀ p ∈ machines,
        ((∃ m, (create p.1 p.2).StopsAt m) ∨ (create p.1 p.2).RunsOff)
          ∧ (∀ m, (create p.1 p.2).StopsAt m → core.metrics.stats.dispatchCountByVm p.1.name
            = some (m / p.1.execSlice + 1))
          ∧ ((create p.1 p.2).RunsOff → core.metrics.stats.dispatchCountByVm p.1.name
            = some (max 1 ((p.2.size + p.1.execSlice - 1) / p.1.execSlice))) := by
  refine ⟨fun hregs => exists_run_newCore hfree hregs hslice habove s transport, ?_⟩
  intro core hrun p hp
  have hlive : ¬ (create p.1 p.2).status.Done := by
    show ¬ VmStatus.Done .ready
    decide
  obtain ⟨vm, hdone, hslices⟩ := afterSlicesOf_of_run hnames hfree hrun hp
  refine ⟨?_, ?_, ?_⟩
  · have hmem : create p.1 p.2 ∈ (newCore machines scheduler s).vms := List.mem_map.mpr ⟨p, hp, rfl⟩
    have hstop : (create p.1 p.2).WillStop := by
      by_contra hstuck
      exact not_run_of_not_willStop hmem hstuck ⟨core, hrun⟩
    exact VirtualMachine.stopsAt_or_runsOff (hstop.resolve_left hlive)
  · intro m hstops
    have hcount := hslices.count_eq hlive (hslice p hp) (hstops.endsWithin hlive) hdone
    have hceil : (m + 1 + p.1.execSlice - 1) / p.1.execSlice = m / p.1.execSlice + 1 := by
      rw [Nat.add_right_comm, Nat.add_sub_cancel, Nat.add_div_right m (hslice p hp)]
    have hmax : max 1 (m / p.1.execSlice + 1) = m / p.1.execSlice + 1 :=
      Nat.max_eq_right (Nat.le_add_left 1 _)
    refine MetricsTracer.dispatchCountByVm_eq_some (hcount.trans ?_) (Nat.succ_pos _)
    show max 1 ((m + 1 + p.1.execSlice - 1) / p.1.execSlice) = _
    rw [hceil, hmax]
  · intro hoff
    have hcount := hslices.count_eq hlive (hslice p hp) (hoff.endsWithin hlive) hdone
    exact MetricsTracer.dispatchCountByVm_eq_some hcount (by omega)

/-- The theorem for two machines under MLFQ: the first slice of one of them ends right at its `HALT`,
the other one faults. -/
theorem run_dispatchCounts_twoMachines :
    let machines : List (VmConfig × Program) :=
      [({ name := [0x61], execSlice := 3 }, VirtualMachine.storeAndLoad),
        ({ name := [0x62], execSlice := 1 }, VirtualMachine.illegalThenHalt)]
    ((∀ p ∈ machines, p.2.RegistersInRange) →
        ∃ core, Run acceptingTransport (newCore machines (.mlfq {}) ()) core)
      ∧ ∀ core, Run acceptingTransport (newCore machines (.mlfq {}) ()) core → ∀ p ∈ machines,
        ((∃ m, (create p.1 p.2).StopsAt m) ∨ (create p.1 p.2).RunsOff)
          ∧ (∀ m, (create p.1 p.2).StopsAt m → core.metrics.stats.dispatchCountByVm p.1.name
            = some (m / p.1.execSlice + 1))
          ∧ ((create p.1 p.2).RunsOff → core.metrics.stats.dispatchCountByVm p.1.name
            = some (max 1 ((p.2.size + p.1.execSlice - 1) / p.1.execSlice))) :=
  run_dispatchCounts (by decide) (by decide) (by decide) (by simp) () acceptingTransport

end HypervisorCore

end VmmShowcase
