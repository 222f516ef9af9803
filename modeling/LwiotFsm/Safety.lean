import LwiotFsm.Invariant

/-!
# Undefined behaviour on reachable engines

Where the C++ code has undefined behaviour the model returns `none`. On a
reachable engine the invariant of `LwiotFsm.Invariant` rules out a missing
current state, so what is left can be listed. A step on an engine with acyclic
parent chains and an error state goes wrong exactly when the front record has
no row from the current state or its row leads to an unregistered state
(`step_undefined_iff`). `raise` and `transition` go wrong exactly when the
lookup from the current state does not end, `stop(false)` when the engine runs
without an error state, and `start` when `valid()` does not end or no start
state is set (`operations_undefined_iff`).

A step pulses `m_stop_event` only when the engine has failed or reached a stop
state, and then `stop(false)` stops it: the signal `stop(true)` waits for is
sent only when the check it repeats succeeds (`stop_after_pulse`).
-/

namespace LwiotFsm.Fsm

variable {P : Policy} {α : Type}

/-! ## A step -/

/-- **When a step has undefined behaviour.** On a reachable engine with acyclic
parent chains and an error state, a step goes wrong exactly when the engine
runs and the front record's event has no row from the current state, or its
row leads to a state that is not registered. -/
theorem step_undefined_iff {s : Fsm P α} (hs : s.Reachable) (hac : s.Acyclic) {es : State}
    (hes : s.errorState = some es) (dest err : Handler P α) :
    s.step dest err = none ↔
      s.status = .running ∧ ∃ e a rest, s.events = (e, a) :: rest ∧
        ∃ cur, s.stateAt s.current = some cur ∧
          (s.lookup cur e = some none ∨ ∃ t, s.lookup cur e = some (some t) ∧ s.stateAt t.next = none) := by
  constructor
  · intro h
    cases hq : s.events with
    | nil => simp [step_nil dest err hq] at h
    | cons r rest =>
      obtain ⟨e, a⟩ := r
      have hrun : s.status = .running := by
        by_contra hrun
        simp [step_cons_of_not_running dest err hq hrun] at h
      obtain ⟨cur, hcur⟩ := hs.consistent.stateAt_current (by simp [hrun])
      obtain ⟨c, -, hl⟩ := hac.lookup_eq (stateAt_mem hcur) e
      refine ⟨hrun, e, a, rest, rfl, cur, hcur, ?_⟩
      rw [hl]
      cases hr : s.nearestRow e c with
      | none => exact .inl rfl
      | some t =>
        refine .inr ⟨t, rfl, ?_⟩
        cases hnext : s.stateAt t.next with
        | none => rfl
        | some st =>
          obtain ⟨s₁, -, -, hset⟩ := settle_eq (hac.congr (by rfl)) (by rfl)
            (show ({ s with events := rest, watchdog := s.watchdog + 1, current := t.next } :
              Fsm P α).stateAt t.next = some st from hnext) hes a dest err
          simp [step_running hrun hq hcur, hl, hr, hset] at h
  · rintro ⟨hrun, e, a, rest, hq, cur, hcur, hl | ⟨t, hl, hnext⟩⟩
    · rw [step_running hrun hq hcur, hl]
      rfl
    · rw [step_running hrun hq hcur, hl]
      simp [settle, stateAt, show s.states.find? (·.id == t.next) = none from hnext]

/-- An engine whose states are all roots has acyclic parent chains. -/
theorem acyclic_of_roots {s : Fsm P α} (h : ∀ st ∈ s.states, st.parent = 0) : s.Acyclic :=
  fun st hst => ⟨[st], .root (h st hst), List.nodup_singleton st⟩

theorem armedLight_step_undefined_iff :
    armedLight.Reachable ∧ armedLight.Acyclic ∧ armedLight.errorState = some ⟨3, 0, true⟩ ∧
      (armedLight.step (.returns true) (.returns true) = none ↔
        armedLight.status = .running ∧ ∃ e a rest, armedLight.events = (e, a) :: rest ∧
          ∃ cur, armedLight.stateAt armedLight.current = some cur ∧
            (armedLight.lookup cur e = some none ∨
              ∃ t, armedLight.lookup cur e = some (some t) ∧ armedLight.stateAt t.next = none)) :=
  have hs : armedLight.Reachable := (trafficLight_reachable 3).run
    (show (trafficLight 3).run [.start true, .call (.raise 1 0)] = some armedLight from rfl)
  have hac : armedLight.Acyclic := acyclic_of_roots (by decide)
  have hes : armedLight.errorState = some ⟨3, 0, true⟩ := by decide
  ⟨hs, hac, hes, step_undefined_iff hs hac hes (.returns true) (.returns true)⟩

/-! ## The operations -/

/-- On a consistent engine `accept(event)` has undefined behaviour exactly when
the engine runs and the lookup from its current state does not end. -/
theorem Consistent.accept_eq_none {s : Fsm P α} (h : s.Consistent) (e : P.Event) :
    s.accept e = none ↔
      s.status = .running ∧ ∃ cur, s.stateAt s.current = some cur ∧ s.lookup cur e = none := by
  rw [accept_eq_lookup]
  by_cases hrun : s.status = .running
  · obtain ⟨cur, hcur⟩ := h.stateAt_current (by simp [hrun])
    simp [running, hrun, hcur]
  · simp [running, hrun]

/-- `valid()` holds only of an engine with a start state. -/
theorem valid_startState {s : Fsm P α} (h : s.valid = some true) : s.startState.isSome := by
  unfold valid at h
  split_ifs at h with h₁ h₂ h₃ h₄
  any_goals cases h
  simp only [Bool.or_eq_true, not_or] at h₃
  simpa [Option.isSome_iff_ne_none] using h₃.1

/-- **When an operation has undefined behaviour.** On a reachable engine,
`raise` and `transition` go wrong exactly when the engine runs and the lookup
of the event from the current state does not end; `stop(false)` exactly when
the engine runs without an error state; `start(true)` exactly when `valid()`
does not end; and `start(false)` exactly when no start state is set. -/
theorem operations_undefined_iff {s : Fsm P α} (hs : s.Reachable) (e : P.Event) (a : α) :
    (s.raise e a = none ↔
      s.status = .running ∧ ∃ cur, s.stateAt s.current = some cur ∧ s.lookup cur e = none) ∧
    (s.transition e a = none ↔
      s.status = .running ∧ ∃ cur, s.stateAt s.current = some cur ∧ s.lookup cur e = none) ∧
    (s.stop = none ↔ s.status = .running ∧ s.errorState = none) ∧
    (s.start true = none ↔ s.valid = none) ∧ (s.start false = none ↔ s.startState = none) := by
  have hc := hs.consistent
  refine ⟨?raise, ?transition, ?stop, ?check, ?nocheck⟩
  case raise => rw [raise, Option.map_eq_none', hc.accept_eq_none]
  case transition => rw [transition, Option.map_eq_none', hc.accept_eq_none]
  case stop =>
    by_cases hrun : s.status = .running
    · obtain ⟨cur, hcur⟩ := hc.stateAt_current (by simp [hrun])
      simp [stop, running, hrun, hcur]
    · simp [stop, running, hrun]
  case check =>
    unfold start
    cases hv : s.valid with
    | none => simp
    | some b =>
      cases b
      · simp
      · simpa [Option.isSome_iff_ne_none] using valid_startState hv
  case nocheck => simp [start]

theorem idleLight_operations_undefined_iff :
    idleLight.Reachable ∧
      (idleLight.raise 2 0 = none ↔ idleLight.status = .running ∧
        ∃ cur, idleLight.stateAt idleLight.current = some cur ∧ idleLight.lookup cur 2 = none) ∧
      (idleLight.transition 2 0 = none ↔ idleLight.status = .running ∧
        ∃ cur, idleLight.stateAt idleLight.current = some cur ∧ idleLight.lookup cur 2 = none) ∧
      (idleLight.stop = none ↔ idleLight.status = .running ∧ idleLight.errorState = none) ∧
      (idleLight.start true = none ↔ idleLight.valid = none) ∧
      (idleLight.start false = none ↔ idleLight.startState = none) :=
  have hs : idleLight.Reachable := (trafficLight_reachable 1).apply (.start true) rfl
  ⟨hs, operations_undefined_iff hs 2 0⟩

/-! ## The stop handshake -/

/-- A settle that pulses the stop event either ended in the error state, or
landed on a registered stop state whose handler succeeded; then it changed
only the queue and the flag besides the pulse. -/
theorem settle_pulse {s s' : Fsm P α} {next : StateId} {a : α} {dest err : Handler P α}
    {rv : FsmStatus} (h : s.settle next a dest err = some (rv, s')) (hp : s'.stopEvent ≠ s.stopEvent) :
    s'.status = .error ∨ (∃ st, s.stateAt next = some st) ∧ s.isStopState next = true ∧
      ∃ evs fl inv, s' = { s with
        events := evs, inTransition := fl, stopEvent := s.stopEvent + 1, invoked := inv } := by
  obtain ⟨st, ok, s₁, hst, hinv, hr⟩ := settle_cases h
  have hq := invoke_cases hinv
  rcases hr with ⟨-, -, rfl⟩ | ⟨-, -, s₂, he, rfl⟩
  · have hss : s₁.isStopState next = s.isStopState next := by
      obtain ⟨_, _, rfl⟩ := hq
      rfl
    rw [hss] at hp ⊢
    obtain ⟨evs, fl, rfl⟩ := hq
    by_cases hstop : s.isStopState next = true
    · exact .inr ⟨⟨st, hst⟩, hstop, evs, fl, _, by rw [if_pos hstop]; rfl⟩
    · rw [if_neg hstop] at hp
      exact absurd rfl hp
  · obtain ⟨es, -, herr, -⟩ := toErrorState_spec he
    exact .inl herr

/-- `stop(false)` stops an engine running at a registered stop state. -/
theorem stop_at_stopState {s : Fsm P α} (hrun : s.status = .running) {cur es : State}
    (hcur : s.stateAt s.current = some cur) (hes : s.errorState = some es)
    (hstop : s.isStopState s.current = true) :
    s.stop = some (true, { s with status := .stopped }) := by
  simp [stop, running, hrun, hcur, hes, stateAt_id hcur, hstop]

/-- **The stop handshake.** A step that pulses `m_stop_event` leaves an engine
that `stop(false)` stops: it failed into the error state, or it runs at a
registered stop state. So the check `stop(true)` repeats when it wakes always
succeeds. -/
theorem stop_after_pulse {s s' : Fsm P α} {es : State} (hes : s.errorState = some es)
    {dest err : Handler P α} {rv : FsmStatus} (h : s.step dest err = some (rv, s'))
    (hp : s'.stopEvent ≠ s.stopEvent) :
    ∃ s'', s'.stop = some (true, s'') ∧ s''.status ≠ .running := by
  rcases step_cases h with ⟨-, -, rfl⟩ | ⟨e, a, rest, -, ⟨-, -, rfl⟩ | ⟨hrun, t, s₁, -, hset, rfl⟩⟩
  · exact absurd rfl hp
  · exact absurd rfl hp
  rcases settle_pulse hset hp with herr | ⟨⟨st, hst⟩, hstop, evs, fl, inv, rfl⟩
  · exact ⟨_, if_pos (by simp [running, herr]), by simp [herr]⟩
  · exact ⟨_, stop_at_stopState hrun hst hes hstop, nofun⟩

/-- S1 running at `Y` with the tick queued: the step lands on the stop state
`R` and pulses the stop event. -/
def yellowLight : Fsm Policy.u32 Nat :=
  ((trafficLight 1).run [.start true, .call (.raise 1 0), .step (.returns true) (.returns true),
    .call (.raise 1 0)]).getD init

theorem yellowLight_stop_after_pulse :
    yellowLight.errorState = some ⟨1, 0, true⟩ ∧
      ∃ rv s', yellowLight.step (.returns true) (.returns true) = some (rv, s') ∧
        s'.stopEvent ≠ yellowLight.stopEvent ∧
        ∃ s'', s'.stop = some (true, s'') ∧ s''.status ≠ .running :=
  have hes : yellowLight.errorState = some ⟨1, 0, true⟩ := by decide
  have hstep : yellowLight.step (.returns true) (.returns true) =
      some (.stateChanged, { yellowLight with
        events := [], watchdog := yellowLight.watchdog + 1, current := 3,
        stopEvent := yellowLight.stopEvent + 1, invoked := yellowLight.invoked ++ [(3, 0)] }) := by
    rfl
  ⟨hes, _, _, hstep, by simp, stop_after_pulse hes hstep (by simp)⟩

end LwiotFsm.Fsm
