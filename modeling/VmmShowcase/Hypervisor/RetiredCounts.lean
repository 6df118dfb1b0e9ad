import VmmShowcase.Hypervisor.Accounting
import VmmShowcase.Hypervisor.Dispatches

/-! # What is counted when `Run` returns

The counters of retired instructions are a map by names. Programs without `MIGRATE` and with distinct
names leave one entry for each machine, also for one that retired nothing, and it holds what the machine
retires alone: neither the scheduler nor the slices show in the counters. -/

namespace VmmShowcase

namespace VirtualMachine

/-- How many instructions the machine retires when it runs alone, unbounded. -/
def retiredAlone (vm : VirtualMachine) : Nat := ((vm.runForSlice vm.program.size).map Prod.fst).getD 0

/-- A new machine is left with its program counter at what it retires alone. -/
theorem EndsAs.pc_eq {config : VmConfig} {program : Program} {vm : VirtualMachine}
    (h : EndsAs (create config program) vm) :
    vm.cpu.pc.toNat = (create config program).retiredAlone := by
  obtain ⟨r, hrun⟩ := h.alone program.size (Nat.le_refl _)
  have hpc := pc_runForSlice hrun
  have hzero : (create config program).cpu.pc.toNat = 0 := rfl
  have hretired : (create config program).retiredAlone = r := by
    have hrun' : (create config program).runForSlice (create config program).program.size
        = some (r, vm) := hrun
    rw [retiredAlone, hrun', Option.map_some, Option.getD_some]
  rw [hpc, hzero, Nat.zero_add, hretired]

end VirtualMachine

namespace HypervisorCore

open VirtualMachine (create EndsAs Schedulable)

variable {τ : Type} {transport : Transport τ}

/-- The counters of retired instructions are kept for names of machines only, and for every machine that
is not ready. -/
structure Recorded (core : HypervisorCore τ) : Prop where
  accounted : core.Accounted
  names : ∀ name, core.metrics.stats.instructionsByVm name ≠ none →
    ∃ vm ∈ core.vms, vm.config.name = name
  seen : ∀ vm ∈ core.vms, vm.status ≠ .ready →
    core.metrics.stats.instructionsByVm vm.config.name ≠ none

/-- An iteration keeps counters for the machines it dispatches. -/
theorem Recorded.next {core core' : HypervisorCore τ} (h : core.Recorded)
    (hbody : body transport core = .next core') : core'.Recorded := by
  have haccounted := h.accounted.next hbody
  rcases cases_of_body hbody with ⟨-, -, -, -, rfl⟩ | ⟨vm, hvm, -, hdispatch⟩
  · exact ⟨haccounted, h.names, h.seen⟩
  have hmem := List.mem_of_getElem? hvm
  obtain ⟨r, vm', hvms, hconfig, -, -, hmetrics⟩ :=
    counted_of_dispatch (h.accounted.pending vm hmem) hdispatch
  have hvms : core'.vms = core.vms.set core.pick.1 vm' := hvms
  have htable : ∃ n, core'.metrics.stats.instructionsByVm
      = core.metrics.stats.instructionsByVm.insert vm.config.name n := ⟨_, by rw [hmetrics]; rfl⟩
  obtain ⟨n, htable⟩ := htable
  have hlt : core.pick.1 < core.vms.length := (List.getElem?_eq_some_iff.mp hvm).1
  refine ⟨haccounted, fun name hname => ?_, fun u hu hready => ?_⟩
  · -- machines keep their names
    have hold : ∃ u ∈ core.vms, u.config.name = name := by
      by_cases hsame : name = vm.config.name
      · exact ⟨vm, hmem, hsame.symm⟩
      · rw [htable, Table.insert_of_ne _ _ hsame] at hname
        exact h.names name hname
    obtain ⟨u, hu, rfl⟩ := hold
    obtain ⟨j, hj⟩ := List.getElem?_of_mem hu
    by_cases hi : core.pick.1 = j
    · subst hi
      rw [hvm, Option.some.injEq] at hj
      subst hj
      exact ⟨vm', by rw [hvms]; exact List.mem_set hlt vm', by rw [hconfig]⟩
    · refine ⟨u, List.mem_of_getElem? (i := j) ?_, rfl⟩
      rw [hvms, List.getElem?_set_ne hi, hj]
  · rw [hvms] at hu
    rw [htable]
    by_cases hsame : u.config.name = vm.config.name
    · rw [hsame, Table.insert_self]
      exact Option.some_ne_none n
    · rw [Table.insert_of_ne _ _ hsame]
      rcases List.mem_or_eq_of_mem_set hu with hu | rfl
      · exact h.seen u hu hready
      · exact absurd (by rw [hconfig]) hsame

/-- Nothing is recorded of new machines. -/
theorem recorded_newCore (machines : List (VmConfig × Program)) (scheduler : Scheduler) (t : τ) :
    (newCore machines scheduler t).Recorded := by
  refine ⟨accounted_create machines scheduler t, fun name hname => absurd rfl hname, ?_⟩
  intro vm hvm hready
  obtain ⟨p, -, rfl⟩ := List.mem_map.mp hvm
  exact absurd rfl hready

/-- With distinct names, what is retired for a name is what its machine has retired. -/
theorem retiredBy_of_nodup {vms : List VirtualMachine}
    (hnames : (vms.map fun vm => vm.config.name).Nodup) {vm : VirtualMachine} (hvm : vm ∈ vms) :
    retiredBy vm.config.name vms = vm.cpu.pc.toNat := by
  induction vms with
  | nil => cases hvm
  | cons u vms ih =>
      rw [List.map_cons, List.nodup_cons] at hnames
      obtain ⟨hu, hnames⟩ := hnames
      rw [retiredBy_eq, List.map_cons, List.sum_cons, ← retiredBy_eq, share]
      rcases List.mem_cons.mp hvm with rfl | hvm
      · have hrest : retiredBy vm.config.name vms = 0 := by
          rw [retiredBy, List.filter_eq_nil_iff.mpr, List.map_nil, List.sum_nil]
          intro u hu' hname
          exact hu (List.mem_map.mpr ⟨u, hu', of_decide_eq_true hname⟩)
        rw [if_pos rfl, hrest, Nat.add_zero]
      · have hne : u.config.name ≠ vm.config.name := by
          intro hname
          exact hu (List.mem_map.mpr ⟨vm, hvm, hname.symm⟩)
        rw [if_neg hne, Nat.zero_add, ih hnames hvm]

/-- New machines that can be run to their ends are left as each alone is left. -/
theorem endsAs_of_run {machines : List (VmConfig × Program)} (hregs : ∀ p ∈ machines, p.2.RegistersInRange)
    (hfree : ∀ p ∈ machines, p.2.MigrateFree) (hslice : ∀ p ∈ machines, 1 ≤ p.1.execSlice)
    {scheduler : Scheduler} (habove : scheduler = .priority → ∀ p ∈ machines, -1000000 < p.1.priority)
    {t : τ} {core : HypervisorCore τ} (hrun : Run transport (newCore machines scheduler t) core) :
    List.Forall₂ EndsAs (machines.map fun p => create p.1 p.2) core.vms := by
  have hschedulable : ∀ vm ∈ machines.map fun p => create p.1 p.2, Schedulable vm := by
    intro vm hvm
    obtain ⟨p, hp, rfl⟩ := List.mem_map.mp hvm
    exact (VirtualMachine.Reachable.create p.1 p.2).schedulable (hregs p hp) (hfree p hp) (hslice p hp)
  have htracks : Tracks (machines.map fun p => create p.1 p.2) (newCore machines scheduler t) := by
    refine ⟨List.forall₂_same.mpr fun vm hvm => (hschedulable vm hvm).descends, ?_⟩
    intro hpriority vm hvm
    obtain ⟨p, hp, rfl⟩ := List.mem_map.mp hvm
    exact habove hpriority p hp
  obtain ⟨core', hrun', -, -, hends⟩ := htracks.exists_run transport
  rw [Run.unique hrun hrun']
  exact hends

/-- **The counters tell what each machine retires alone.** -/
theorem instructionsByVm_eq_some_iff {machines : List (VmConfig × Program)}
    (hnames : (machines.map fun p => p.1.name).Nodup) (hregs : ∀ p ∈ machines, p.2.RegistersInRange)
    (hfree : ∀ p ∈ machines, p.2.MigrateFree) (hslice : ∀ p ∈ machines, 1 ≤ p.1.execSlice)
    {scheduler : Scheduler} (habove : scheduler = .priority → ∀ p ∈ machines, -1000000 < p.1.priority)
    {t : τ} {core : HypervisorCore τ} (hrun : Run transport (newCore machines scheduler t) core)
    (name : CString) (n : Nat) : core.metrics.stats.instructionsByVm name = some n
      ↔ (name, n) ∈ machines.map fun p => (p.1.name, (create p.1 p.2).retiredAlone) := by
  have hends := endsAs_of_run hregs hfree hslice habove hrun
  obtain ⟨core', hreach, hexit⟩ := Loop.Terminates.exists_exit hrun
  obtain ⟨rfl, hdone⟩ := body_eq_exit_iff.mp hexit
  have hrecorded : core.Recorded :=
    hreach.invariant Recorded (fun _ _ h hbody => h.next hbody) (recorded_newCore machines scheduler t)
  -- the machines keep their names, and their program counters are what they retire alone
  have hcounts : (machines.map fun p => (p.1.name, (create p.1 p.2).retiredAlone))
      = core.vms.map fun vm => (vm.config.name, vm.cpu.pc.toNat) := by
    rw [← List.forall₂_eq_eq_eq, List.forall₂_map_left_iff, List.forall₂_map_right_iff]
    refine (List.forall₂_map_left_iff.mp hends).imp fun p vm hvm => ?_
    obtain ⟨r, hrun⟩ := hvm.alone p.2.size (Nat.le_refl _)
    rw [hvm.pc_eq, (VirtualMachine.sameProgram_runForSlice hrun).config_eq]
    rfl
  have hnames' : (core.vms.map fun vm => vm.config.name).Nodup := by
    have hnames₁ : (core.vms.map fun vm => vm.config.name) = machines.map fun p => p.1.name := by
      have hfst := congrArg (List.map Prod.fst) hcounts
      rw [List.map_map, List.map_map] at hfst
      exact hfst.symm
    rw [hnames₁]
    exact hnames
  have hvalue {vm : VirtualMachine} (hvm : vm ∈ core.vms) :
      (core.metrics.stats.instructionsByVm vm.config.name).getD 0 = vm.cpu.pc.toNat :=
    (hrecorded.accounted.counted vm.config.name).trans (retiredBy_of_nodup hnames' hvm)
  rw [hcounts, List.mem_map]
  constructor
  · intro hentry
    obtain ⟨vm, hvm, rfl⟩ := hrecorded.names name (by rw [hentry]; exact Option.some_ne_none n)
    have hn := hvalue hvm
    rw [hentry, Option.getD_some] at hn
    exact ⟨vm, hvm, by rw [hn]⟩
  · rintro ⟨vm, hvm, heq⟩
    rw [Prod.mk.injEq] at heq
    obtain ⟨rfl, rfl⟩ := heq
    -- the machine is done, so it was dispatched
    have hready : vm.status ≠ .ready := by
      intro hready
      have hnot := hdone vm hvm
      rw [hready] at hnot
      exact absurd hnot (by decide)
    obtain ⟨n, hn⟩ := Option.ne_none_iff_exists'.mp (hrecorded.seen vm hvm hready)
    rw [← hvalue hvm, hn, Option.getD_some]

end HypervisorCore

end VmmShowcase
