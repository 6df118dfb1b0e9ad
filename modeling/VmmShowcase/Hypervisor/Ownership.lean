import VmmShowcase.Hypervisor.Termination

/-! # Who owns a machine that was handed over

Behind a hand-over the machine runs at the other end, so it must not run here again. It does not if
it was halted or faulted when its state was accepted. If it was live, it is left blocked at its
`MIGRATE` and the scheduler comes back to it, so it is dispatched once more. -/

namespace VmmShowcase

/-- The event runs machine `idx` here, or sends its state. -/
def Event.Uses (idx : Nat) : Event → Prop
  | .dispatched j | .sent j _ _ _ => j = idx
  | .handedOver _ | .migrationFailed _ _ => False

/-- Behind its hand-over, no machine is dispatched and no packet of it is sent. -/
def SingleOwnership (log : List Event) : Prop :=
  log.Pairwise fun e e' => ∀ idx, e = .handedOver idx → ¬ e'.Uses idx

/-- The state of a machine that was neither halted nor faulted was accepted. -/
def LiveHandOver (log : List Event) : Prop :=
  ∃ idx status packet, .sent idx status packet true ∈ log ∧ ¬ status.Done

namespace HypervisorCore

open VirtualMachine (AfterDispatch)

variable {τ : Type} {transport : Transport τ}

/-! ## The log of one dispatch -/

section Log

variable {idx : Nat} {vm vm' : VirtualMachine} {events : List Event}

/-- **Inversion of a dispatch's log.** Every event names the machine that was dispatched, and it is
handed over only if its state was accepted. -/
theorem MigrationLog.mem_cases (h : @MigrationLog τ idx vm vm' events) {e : Event}
    (he : e ∈ .dispatched idx :: events) :
    e = .dispatched idx
      ∨ (∃ packet accepted, e = .sent idx vm'.status packet accepted)
      ∨ (e = .handedOver idx ∧ ∃ packet, .sent idx vm'.status packet true ∈ events)
      ∨ ∃ error, e = .migrationFailed idx error := by
  rcases List.mem_cons.mp he with rfl | he
  · exact .inl rfl
  rcases h with rfl | ⟨-, packet, outcome, hok, rfl⟩
  · cases he
  rcases List.mem_append.mp he with hsent | hend
  · obtain ⟨accepted, -, rfl⟩ := List.mem_map.mp hsent
    exact .inr (.inl ⟨packet, accepted, rfl⟩)
  rw [List.mem_singleton] at hend
  subst hend
  cases houtcome : outcome.ok with
  | false => exact .inr (.inr (.inr ⟨outcome.error, rfl⟩))
  | true =>
      refine .inr (.inr (.inl ⟨rfl, packet, List.mem_append_left _ ?_⟩))
      exact List.mem_map_of_mem (hok.mp houtcome)

/-- If the state of the machine was accepted, it is handed over. -/
theorem MigrationLog.handedOver_mem (h : @MigrationLog τ idx vm vm' events) {j : Nat}
    {status : VmStatus} {packet : MigrationPacket} (hsent : .sent j status packet true ∈ events) :
    .handedOver idx ∈ events := by
  rcases h with rfl | ⟨-, packet', outcome, hok, rfl⟩
  · cases hsent
  refine List.mem_append_right _ ?_
  rcases List.mem_append.mp hsent with hsent | hend
  · obtain ⟨accepted, haccepted, heq⟩ := List.mem_map.mp hsent
    cases heq
    rw [if_pos (hok.mpr haccepted)]
    exact List.mem_singleton.mpr rfl
  · rw [List.mem_singleton] at hend
    split at hend <;> cases hend

/-- A dispatch uses no machine but its own. -/
theorem MigrationLog.eq_of_uses (h : @MigrationLog τ idx vm vm' events) {e : Event}
    (he : e ∈ .dispatched idx :: events) {j : Nat} (huses : e.Uses j) : j = idx := by
  rcases h.mem_cases he with rfl | ⟨packet, accepted, rfl⟩ | ⟨rfl, -⟩ | ⟨error, rfl⟩
  · exact huses.symm
  · exact huses.symm
  · cases huses
  · cases huses

/-- What is sent is sent with the status the dispatch leaves. -/
theorem MigrationLog.status_eq (h : @MigrationLog τ idx vm vm' events) {j : Nat}
    {status : VmStatus} {packet : MigrationPacket} {accepted : Bool}
    (hsent : .sent j status packet accepted ∈ .dispatched idx :: events) : status = vm'.status := by
  rcases h.mem_cases hsent with heq | ⟨_, _, heq⟩ | ⟨heq, -⟩ | ⟨_, heq⟩ <;> cases heq
  rfl

/-- A machine with no migration pending is sent only while it is blocked. -/
theorem MigrationLog.status_of_sent (h : @MigrationLog τ idx vm vm' events)
    (hpending : vm.pendingMigrationTarget = none) {j : Nat} {status : VmStatus}
    {packet : MigrationPacket} {accepted : Bool}
    (hsent : .sent j status packet accepted ∈ .dispatched idx :: events) : status = .blocked := by
  have hstatus := h.status_eq hsent
  rcases h with rfl | ⟨hmigration, -⟩
  · simp at hsent
  · rw [hstatus, hmigration.status hpending]

/-- A dispatch keeps single ownership exactly if its machine was not handed over before. -/
theorem MigrationLog.singleOwnership_iff (h : @MigrationLog τ idx vm vm' events)
    {log : List Event} : SingleOwnership (log ++ .dispatched idx :: events)
      ↔ SingleOwnership log ∧ .handedOver idx ∉ log := by
  have hevents : SingleOwnership (.dispatched idx :: events) := by
    refine List.pairwise_cons.mpr ⟨?_, ?_⟩
    · intro e he j heq
      cases heq
    rcases h with rfl | ⟨-, packet, outcome, -, rfl⟩
    · exact .nil
    -- only the last event can be a hand-over
    refine List.pairwise_append.mpr ⟨?_, List.pairwise_singleton _ _, ?_⟩
    · refine List.pairwise_map.mpr (List.pairwise_of_forall ?_)
      intro accepted accepted' j heq
      cases heq
    · rintro e he - - j rfl
      simp at he
  rw [SingleOwnership, List.pairwise_append]
  constructor
  · rintro ⟨hlog, -, hcross⟩
    refine ⟨hlog, fun hmem => ?_⟩
    exact hcross _ hmem _ List.mem_cons_self idx rfl rfl
  · rintro ⟨hlog, hmem⟩
    refine ⟨hlog, hevents, ?_⟩
    rintro e he e' he' j rfl huses
    rw [h.eq_of_uses he' huses] at he
    exact hmem he

end Log

/-! ## What a dispatch does to the machines -/

section Dispatch

variable {core core' : HypervisorCore τ} {idx : Nat} {vm vm' : VirtualMachine}

/-- The machine that was dispatched is live if its new state is. -/
theorem Dispatched.live_self_iff (h : core.Dispatched idx vm vm' core')
    (hvm : core.vms[idx]? = some vm) : Live core'.statuses idx ↔ ¬ vm'.status.Done := by
  have hlt := (List.getElem?_eq_some_iff.mp hvm).1
  rw [live_statuses_iff, h.vms_eq, List.getElem?_set_self hlt]
  simp

/-- The other machines stay as live as they were. -/
theorem Dispatched.live_iff_of_ne (h : core.Dispatched idx vm vm' core') {j : Nat} (hj : idx ≠ j) :
    Live core'.statuses j ↔ Live core.statuses j := by
  rw [live_statuses_iff, live_statuses_iff, h.vms_eq, List.getElem?_set_ne hj]

/-- A dispatch adds no machine. -/
theorem Dispatched.length_eq (h : core.Dispatched idx vm vm' core') :
    core'.vms.length = core.vms.length := by
  rw [h.vms_eq, List.length_set]

/-- A dispatch that keeps its machine live keeps the same machines live. -/
theorem Dispatched.sameLive (h : core.Dispatched idx vm vm' core') (hvm : core.vms[idx]? = some vm)
    (hlive : ¬ vm.status.Done) (hlive' : ¬ vm'.status.Done) :
    SameLive core.statuses core'.statuses := by
  refine ⟨?_, fun j => ?_⟩
  · rw [statuses, statuses, List.length_map, List.length_map, h.length_eq]
  by_cases hj : idx = j
  · subst hj
    have hidx : Live core.statuses idx := live_statuses_iff.mpr ⟨vm, hvm, hlive⟩
    exact iff_of_true ((h.live_self_iff hvm).mpr hlive') hidx
  · exact h.live_iff_of_ne hj

/-- A dispatch changes no priority. -/
theorem Dispatched.priorities_eq (h : core.Dispatched idx vm vm' core')
    (hvm : core.vms[idx]? = some vm) (hafter : AfterDispatch vm vm') :
    core'.priorities = core.priorities := by
  rw [priorities, priorities, h.vms_eq, List.map_set, hafter.sameProgram.config_eq]
  obtain ⟨hlt, rfl⟩ := List.getElem?_eq_some_iff.mp hvm
  have hlt' : idx < (core.vms.map (·.config.priority)).length := by rwa [List.length_map]
  have hentry : (core.vms.map (·.config.priority))[idx] = core.vms[idx].config.priority :=
    List.getElem_map _
  rw [← hentry, List.set_getElem_self]

end Dispatch

/-- Only a machine that was live is live. -/
theorem Turn.live {core core' : HypervisorCore τ} (h : core.Turn core') {j : Nat}
    (hj : Live core'.statuses j) : Live core.statuses j := by
  cases h with
  | skip => exact hj
  | @dispatch vm vm' _ hvm hlive _ hdispatched =>
      by_cases hne : core.pick.1 = j
      · exact live_statuses_iff.mpr ⟨vm, hne ▸ hvm, hlive⟩
      · exact (hdispatched.live_iff_of_ne hne).mp hj

/-! ## Only dead machines are handed over -/

/-- Ownership is single so far, and no machine that was handed over is live. -/
structure HandedOverDead (core : HypervisorCore τ) : Prop where
  single : SingleOwnership core.log
  dead : ∀ idx, .handedOver idx ∈ core.log → ¬ Live core.statuses idx

/-- An iteration that hands over no live machine keeps ownership single. -/
theorem HandedOverDead.turn {core core' : HypervisorCore τ} (h : core.HandedOverDead)
    (hturn : core.Turn core') (hnone : ¬ LiveHandOver core'.log) : core'.HandedOverDead := by
  cases hturn with
  | skip => exact ⟨h.single, h.dead⟩
  | @dispatch vm vm' _ hvm hlive hafter hdispatched =>
      obtain ⟨events, hlog, hevents⟩ := hdispatched.log_eq
      have hpicked : Live core.statuses core.pick.1 := live_statuses_iff.mpr ⟨vm, hvm, hlive⟩
      have hnew : .handedOver core.pick.1 ∉ core.log := fun hmem => h.dead _ hmem hpicked
      refine ⟨?_, fun j hj => ?_⟩
      · rw [hlog]
        exact hevents.singleOwnership_iff.mpr ⟨h.single, hnew⟩
      rw [hlog] at hj
      rcases List.mem_append.mp hj with hj | hj
      · -- a hand-over before this dispatch, so of another machine
        have hne : core.pick.1 ≠ j := fun heq => hnew (heq ▸ hj)
        exact (hdispatched.live_iff_of_ne hne).not.mpr (h.dead j hj)
      · rcases hevents.mem_cases hj with heq | ⟨_, _, heq⟩ | ⟨heq, packet, hsent⟩ | ⟨_, heq⟩
        · cases heq
        · cases heq
        · cases heq
          rw [hdispatched.live_self_iff hvm]
          intro hlive'
          refine hnone ⟨core.pick.1, vm'.status, packet, ?_, hlive'⟩
          rw [hlog]
          exact List.mem_append_right _ (List.mem_cons_of_mem _ hsent)
        · cases heq

/-- A run that hands over no live machine keeps ownership single. -/
theorem singleOwnership_of_reaches {core core' : HypervisorCore τ} (hlog : core.log = [])
    (hnone : ∀ core', Loop.Reaches (body transport) core core' → ¬ LiveHandOver core'.log)
    (hreach : Loop.Reaches (body transport) core core') : SingleOwnership core'.log := by
  have h₀ : core.HandedOverDead := by
    refine ⟨?_, fun idx hmem => ?_⟩
    · rw [hlog]
      exact .nil
    · rw [hlog] at hmem
      cases hmem
  have hinvariant : Loop.Reaches (body transport) core core' ∧ core'.HandedOverDead := by
    refine Loop.Reaches.invariant
      (fun c => Loop.Reaches (body transport) core c ∧ c.HandedOverDead) ?_ hreach ⟨.refl, h₀⟩
    rintro c c' ⟨hc, hdead⟩ hbody
    have hc' : Loop.Reaches (body transport) core c' := hc.tail hbody
    exact ⟨hc', hdead.turn (turn_of_body hbody) (hnone c' hc')⟩
  exact hinvariant.2.single

/-! ## A live machine is handed over -/

/-- Machine `idx` was handed over, is live, and the scheduler will come to it. -/
structure HandedOverLive (core : HypervisorCore τ) (idx : Nat) : Prop where
  handedOver : .handedOver idx ∈ core.log
  live : Live core.statuses idx
  tracked : core.scheduler.Tracks core.statuses core.priorities idx

/-- An iteration that hands over a live machine leaves it for the scheduler to come to. -/
theorem Turn.exists_handedOverLive {core core' : HypervisorCore τ} (hturn : core.Turn core')
    (hold : ¬ LiveHandOver core.log) (hnew : LiveHandOver core'.log) :
    ∃ idx, core'.HandedOverLive idx := by
  cases hturn with
  | skip => exact absurd hnew hold
  | @dispatch vm vm' _ hvm hlive hafter hdispatched =>
      obtain ⟨events, hlog, hevents⟩ := hdispatched.log_eq
      obtain ⟨j, status, packet, hsent, hstatus⟩ := hnew
      rw [hlog] at hsent
      rcases List.mem_append.mp hsent with hsent | hsent
      · exact absurd ⟨j, status, packet, hsent, hstatus⟩ hold
      have hlive' : ¬ vm'.status.Done := by rwa [← hevents.status_eq hsent]
      have hsent' : .sent j status packet true ∈ events :=
        (List.mem_cons.mp hsent).resolve_left (by simp)
      refine ⟨core.pick.1, ?_, (hdispatched.live_self_iff hvm).mpr hlive', ?_⟩
      · rw [hlog]
        exact List.mem_append_right _ (List.mem_cons_of_mem _ (hevents.handedOver_mem hsent'))
      · -- the machine was just picked and the same machines are live
        rw [hdispatched.scheduler_eq, hdispatched.priorities_eq hvm hafter]
        exact Scheduler.tracks_of_pick rfl (live_statuses_iff.mpr ⟨vm, hvm, hlive⟩)
          (hdispatched.sameLive hvm hlive hlive')

/-- An iteration that picks another machine brings the handed-over machine closer to its turn. -/
theorem HandedOverLive.turn {core core' : HypervisorCore τ} {idx : Nat}
    (h : core.HandedOverLive idx) (hturn : core.Turn core') (hpick : core.pick.1 ≠ idx) :
    core'.HandedOverLive idx
      ∧ core'.scheduler.distance core'.vms.length idx
        < core.scheduler.distance core.vms.length idx := by
  rcases Scheduler.pick_or_distance_lt h.tracked h.live with heq | ⟨hlt, htracks⟩
  · exact absurd heq hpick
  rw [statuses, List.length_map] at hlt
  cases hturn with
  | skip => exact ⟨⟨h.handedOver, h.live, htracks _⟩, hlt⟩
  | dispatch hvm _ hafter hdispatched =>
      obtain ⟨events, hlog, -⟩ := hdispatched.log_eq
      refine ⟨⟨?_, (hdispatched.live_iff_of_ne hpick).mpr h.live, ?_⟩, ?_⟩
      · rw [hlog]
        exact List.mem_append_left _ h.handedOver
      · rw [hdispatched.scheduler_eq, hdispatched.priorities_eq hvm hafter]
        exact htracks _
      · rw [hdispatched.scheduler_eq, hdispatched.length_eq]
        exact hlt

/-- The iteration that picks the handed-over machine breaks single ownership. -/
theorem HandedOverLive.not_singleOwnership {core core' : HypervisorCore τ} {idx : Nat}
    (h : core.HandedOverLive idx) (hturn : core.Turn core') (hpick : core.pick.1 = idx) :
    ¬ SingleOwnership core'.log := by
  cases hturn with
  | skip _ _ hdead =>
      rw [hpick] at hdead
      exact absurd h.live hdead
  | dispatch _ _ _ hdispatched =>
      obtain ⟨events, hlog, hevents⟩ := hdispatched.log_eq
      rw [hlog]
      intro hsingle
      refine (hevents.singleOwnership_iff.mp hsingle).2 ?_
      rw [hpick]
      exact h.handedOver

/-- While a machine is live, an iteration with defined behaviour comes back to the loop head. -/
theorem exists_next {core : HypervisorCore τ} {idx : Nat} (hlive : Live core.statuses idx)
    (hdefined : body transport core ≠ .undefined) : ∃ core', body transport core = .next core' := by
  obtain ⟨vm, hvm, hlive⟩ := live_statuses_iff.mp hlive
  cases hbody : body transport core with
  | exit core' =>
      have hdone := (body_eq_exit_iff.mp hbody).2 vm (List.mem_of_getElem? hvm)
      exact absurd hdone hlive
  | next core' => exact ⟨core', rfl⟩
  | undefined => exact absurd hbody hdefined

/-- A machine that was handed over live is dispatched again. -/
theorem HandedOverLive.exists_not_singleOwnership {core : HypervisorCore τ} {idx : Nat}
    (h : core.HandedOverLive idx)
    (hdefined : ∀ core', Loop.Reaches (body transport) core core' →
      body transport core' ≠ .undefined) :
    ∃ core', Loop.Reaches (body transport) core core' ∧ ¬ SingleOwnership core'.log := by
  have hcomes : ∃ c, Loop.Reaches (body transport) core c
      ∧ (c.HandedOverLive idx ∧ Loop.Reaches (body transport) core c) ∧ c.pick.1 = idx := by
    -- every pick of another machine lowers the distance
    refine Loop.reaches_of_measure (fun c => c.scheduler.distance c.vms.length idx)
      (fun c => c.HandedOverLive idx ∧ Loop.Reaches (body transport) core c) (fun c => c.pick.1 = idx)
      ?_ ⟨h, .refl⟩
    rintro c ⟨hc, hreach⟩
    by_cases hpick : c.pick.1 = idx
    · exact .inl hpick
    obtain ⟨c', hbody⟩ := exists_next hc.live (hdefined c hreach)
    obtain ⟨hc', hlt⟩ := hc.turn (turn_of_body hbody) hpick
    exact .inr ⟨c', hbody, ⟨hc', hreach.tail hbody⟩, hlt⟩
  obtain ⟨c, hreach, ⟨hc, -⟩, hpick⟩ := hcomes
  obtain ⟨c', hbody⟩ := exists_next hc.live (hdefined c hreach)
  exact ⟨c', hreach.tail hbody, hc.not_singleOwnership (turn_of_body hbody) hpick⟩

/-- In a run in which a live machine was handed over, there is a head where the scheduler will come
to it. -/
theorem exists_handedOverLive {core core' : HypervisorCore τ} (hlog : core.log = [])
    (hreach : Loop.Reaches (body transport) core core') (h : LiveHandOver core'.log) :
    ∃ c idx, Loop.Reaches (body transport) core c ∧ c.HandedOverLive idx := by
  induction hreach with
  | refl =>
      obtain ⟨idx, status, packet, hsent, -⟩ := h
      rw [hlog] at hsent
      cases hsent
  | @tail c c' hreach hround ih =>
      by_cases hold : LiveHandOver c.log
      · exact ih hold
      · obtain ⟨idx, hlive⟩ := (turn_of_body hround).exists_handedOverLive hold h
        exact ⟨c', idx, hreach.tail hround, hlive⟩

/-- Machines added with no migration pending are sent only while they are blocked. -/
theorem status_of_sent {core core' : HypervisorCore τ} (hlog : core.log = [])
    (hpending : ∀ vm ∈ core.vms, vm.pendingMigrationTarget = none)
    (hreach : Loop.Reaches (body transport) core core') {idx : Nat} {status : VmStatus}
    {packet : MigrationPacket} {accepted : Bool} (h : .sent idx status packet accepted ∈ core'.log) :
    status = .blocked := by
  have hinvariant : (∀ vm ∈ core'.vms, vm.pendingMigrationTarget = none)
      ∧ ∀ idx status packet accepted, .sent idx status packet accepted ∈ core'.log →
        status = .blocked := by
    refine Loop.Reaches.invariant (fun c : HypervisorCore τ =>
      (∀ vm ∈ c.vms, vm.pendingMigrationTarget = none) ∧ ∀ idx status packet accepted,
        .sent idx status packet accepted ∈ c.log → status = .blocked) ?_ hreach ⟨hpending, ?_⟩
    · rintro c c' ⟨hc, hsent⟩ hbody
      have hturn := turn_of_body hbody
      refine ⟨hturn.forall_vms _ (fun _ _ _ hafter => hafter.pending) hc, ?_⟩
      cases hturn with
      | skip => exact hsent
      | dispatch hvm _ _ hdispatched =>
          obtain ⟨events, hlog, hevents⟩ := hdispatched.log_eq
          intro idx status packet accepted hmem
          rw [hlog] at hmem
          rcases List.mem_append.mp hmem with hmem | hmem
          · exact hsent idx status packet accepted hmem
          · exact hevents.status_of_sent (hc _ (List.mem_of_getElem? hvm)) hmem
    · intro idx status packet accepted hmem
      rw [hlog] at hmem
      cases hmem
  exact hinvariant.2 idx status packet accepted h

/-- If the machines were added with no migration pending, a live machine is handed over as soon as
any packet is accepted. -/
theorem liveHandOver_iff {core core' : HypervisorCore τ} (hlog : core.log = [])
    (hpending : ∀ vm ∈ core.vms, vm.pendingMigrationTarget = none)
    (hreach : Loop.Reaches (body transport) core core') :
    LiveHandOver core'.log ↔ ∃ idx status packet, .sent idx status packet true ∈ core'.log := by
  constructor
  · rintro ⟨idx, status, packet, hsent, -⟩
    exact ⟨idx, status, packet, hsent⟩
  · rintro ⟨idx, status, packet, hsent⟩
    refine ⟨idx, status, packet, hsent, ?_⟩
    rw [status_of_sent hlog hpending hreach hsent]
    decide

/-- **Single ownership.** Under all three schedulers and any transport, a run of `Run` that never
has the state of a live machine accepted keeps ownership single. Where the behaviour of a run is
defined, it keeps ownership single only so. -/
theorem run_singleOwnership_iff {core : HypervisorCore τ} (hlog : core.log = [])
    (transport : Transport τ) :
    ((∀ core', Loop.Reaches (body transport) core core' → ¬ LiveHandOver core'.log) →
        ∀ core', Loop.Reaches (body transport) core core' → SingleOwnership core'.log)
      ∧ ((∀ core', Loop.Reaches (body transport) core core' → body transport core' ≠ .undefined) →
        ((∀ core', Loop.Reaches (body transport) core core' → SingleOwnership core'.log)
          ↔ ∀ core', Loop.Reaches (body transport) core core' → ¬ LiveHandOver core'.log)) := by
  have hsufficient : (∀ core', Loop.Reaches (body transport) core core' → ¬ LiveHandOver core'.log) →
      ∀ core', Loop.Reaches (body transport) core core' → SingleOwnership core'.log := by
    intro hnone core' hreach
    exact singleOwnership_of_reaches hlog hnone hreach
  refine ⟨hsufficient, fun hdefined => ⟨?_, hsufficient⟩⟩
  intro hsingle core' hreach hlive
  obtain ⟨c, idx, hc, hhanded⟩ := exists_handedOverLive hlog hreach hlive
  -- from the head where the scheduler will come to the machine, the run goes on to dispatch it
  obtain ⟨c', hreach', hviolated⟩ := hhanded.exists_not_singleOwnership
    fun c' hc' => hdefined c' (hc.trans hc')
  exact hviolated (hsingle c' (hc.trans hreach'))

/-- A run of machines whose register operands name registers has defined behaviour. -/
theorem body_ne_undefined_of_reaches {core core' : HypervisorCore τ}
    (h : ∀ vm ∈ core.vms, vm.program.RegistersInRange)
    (hreach : Loop.Reaches (body transport) core core') : body transport core' ≠ .undefined := by
  have hregs : ∀ vm ∈ core'.vms, vm.program.RegistersInRange := by
    refine Loop.Reaches.invariant
      (fun c : HypervisorCore τ => ∀ vm ∈ c.vms, vm.program.RegistersInRange) ?_ hreach h
    intro c c' hc hbody
    refine (turn_of_body hbody).forall_vms (fun vm => vm.program.RegistersInRange) ?_ hc
    intro vm vm' hvm hafter
    rwa [hafter.sameProgram.program_eq]
  refine body_ne_undefined (fun vm => vm.program.RegistersInRange) ?_ hregs
  intro vm k hvm
  obtain ⟨⟨r, vm'⟩, hrun⟩ := VirtualMachine.exists_runForSlice hvm k
  refine ⟨r, vm', hrun, ?_⟩
  rwa [(VirtualMachine.sameProgram_runForSlice hrun).program_eq]

/-- The theorem at the migrating core, whose behaviour is defined. -/
theorem run_singleOwnership_iff_migratingCore :
    (∀ core', Loop.Reaches (body acceptingTransport) migratingCore core' →
        SingleOwnership core'.log)
      ↔ ∀ core', Loop.Reaches (body acceptingTransport) migratingCore core' →
        ¬ LiveHandOver core'.log := by
  have hregs : ∀ vm ∈ migratingCore.vms, vm.program.RegistersInRange := by
    intro vm hvm
    rw [List.mem_singleton.mp hvm]
    show migratingProgram.RegistersInRange
    decide
  have h := @run_singleOwnership_iff Unit migratingCore rfl acceptingTransport
  exact h.2 fun core' hreach => body_ne_undefined_of_reaches hregs hreach

/-- Two iterations of the migrating core hand its machine over twice. -/
theorem migratingCore_twice : ∃ packet core₁ core₂,
    body acceptingTransport migratingCore = .next core₁ ∧ body acceptingTransport core₁ = .next core₂
      ∧ core₂.log = [.dispatched 0, .sent 0 .blocked packet true, .handedOver 0,
        .dispatched 0, .sent 0 .blocked packet true, .handedOver 0] :=
  ⟨_, _, _, rfl, rfl, rfl⟩

/-- The migrating core dispatches its machine and sends it once more after it was handed over. -/
theorem migratingCore_not_singleOwnership :
    ¬ ∀ core', Loop.Reaches (body acceptingTransport) migratingCore core' →
      SingleOwnership core'.log := by
  intro h
  obtain ⟨packet, core₁, core₂, h₁, h₂, hlog⟩ := migratingCore_twice
  have hreach : Loop.Reaches (body acceptingTransport) migratingCore core₂ := .tail (.single h₁) h₂
  have hsingle := h core₂ hreach
  rw [hlog] at hsingle
  simp [SingleOwnership, Event.Uses] at hsingle

end HypervisorCore

end VmmShowcase
