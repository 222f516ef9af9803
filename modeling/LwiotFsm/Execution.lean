import LwiotFsm.Validation

/-!
# Executing a record

`transition()`, the step a driver loop calls, returns `StateUnchanged` on an
empty queue before it does anything else, and otherwise pops the front record
before the inner `transition(event, args, IndexSequence)` resets the watchdog
and checks `running()`. So a step on an engine that is not running still
consumes a record (`step_of_not_running`; the halted light drops its tick,
`halted_step_drops_record`), and a step on an empty queue never resets the
watchdog (`step_watchdog`). A step that returns `Fault` leaves the
engine in `Error` at its error state (`step_fault`); from there `stop(false)`
and `start(true)` change nothing, and only `start(false)` runs the engine again
(`error_recovery`).

Nothing clears the queue on `halt`, `stop` or `start`, and the step resolves a
queued record from whatever the current state is when it is popped: a record
admitted by one state can reach another that has no row for it, after a
restart (`stale_record_unresolved`).
-/

namespace LwiotFsm.Fsm

variable {P : Policy} {α : Type}

/-! ## Runs of the traffic light -/

/-- S1 right after `start(true)`: running at `G`, nothing queued. -/
def idleLight : Fsm Policy.u32 Nat := ((trafficLight 1).start true).getD init

/-- S1 after `start(true)`, `raise(tick)` and `halt()`: stopped, with the tick
still queued. -/
def haltedLight : Fsm Policy.u32 Nat :=
  ((trafficLight 1).run [.start true, .call (.raise 1 0), .halt]).getD init

/-- S2 after `start(true)` and `raise(tick)`. -/
def armedLight : Fsm Policy.u32 Nat :=
  ((trafficLight 3).run [.start true, .call (.raise 1 0)]).getD init

/-- S2 after the step into `Y`, whose handler returns `false`. -/
def faultedLight : Fsm Policy.u32 Nat :=
  ((armedLight.step (.returns false) (.returns true)).map Prod.snd).getD init

/-! ## Steps that execute nothing -/

theorem step_cons_of_not_running {s : Fsm P α} (dest err : Handler P α) {r : P.Event × α}
    {rest : List (P.Event × α)} (h : s.events = r :: rest) (hs : s.status ≠ .running) :
    s.step dest err =
      some (s.status, { s with events := rest, watchdog := s.watchdog + 1, inTransition := false }) := by
  obtain ⟨e, a⟩ := r
  simp [step_cons dest err h, stepWith, resetWatchdog, running, hs]

/-- **A step on an engine that is not running.** On an empty queue it returns
`StateUnchanged` and changes nothing. Otherwise it returns the status, but it
has popped the front record, reset the watchdog and cleared the in-transition
flag: the record is dropped unexecuted. -/
theorem step_of_not_running {s : Fsm P α} (hs : s.status ≠ .running) (dest err : Handler P α) :
    (s.events = [] → s.step dest err = some (.stateUnchanged, s)) ∧
      ∀ r rest, s.events = r :: rest → s.step dest err =
        some (s.status, { s with events := rest, watchdog := s.watchdog + 1, inTransition := false }) :=
  ⟨step_nil dest err, fun _ _ h => step_cons_of_not_running dest err h hs⟩

/-- The halted traffic light drops its queued tick on the next step. -/
theorem halted_step_drops_record :
    haltedLight.status = .stopped ∧ haltedLight.events = [(1, 0)] ∧
      (haltedLight.step (.returns true) (.returns true)).map (fun r => (r.1, r.2.events)) =
        some (.stopped, []) := by
  decide

/-- **A step resets the watchdog once, unless the queue is empty.** -/
theorem step_watchdog {s s' : Fsm P α} {dest err : Handler P α} {rv : FsmStatus}
    (h : s.step dest err = some (rv, s')) :
    s'.watchdog = if s.events.isEmpty then s.watchdog else s.watchdog + 1 := by
  rcases step_cases h with ⟨hq, -, rfl⟩ | ⟨e, a, rest, hq, -⟩ <;> rw [hq]
  · rfl
  · exact (step_cons_executes hq h).watchdog

theorem armedLight_step_watchdog :
    armedLight.step (.returns false) (.returns true) = some (.fault, faultedLight) ∧
      faultedLight.watchdog =
        if armedLight.events.isEmpty then armedLight.watchdog else armedLight.watchdog + 1 :=
  have h : armedLight.step (.returns false) (.returns true) = some (.fault, faultedLight) := rfl
  ⟨h, step_watchdog h⟩

/-- The started traffic light with nothing queued: a step leaves the watchdog
as it was. -/
theorem idle_step_skips_watchdog :
    idleLight.status = .running ∧ idleLight.events = [] ∧
      (idleLight.step (.returns true) (.returns true)).map (·.2.watchdog) =
        some idleLight.watchdog := by
  decide

/-! ## Faults and recovery -/

theorem toErrorState_spec {s s' : Fsm P α} {h : Handler P α} {a : α}
    (he : s.toErrorState h a = some s') :
    ∃ es, s.errorState = some es ∧ s'.status = .error ∧ s'.current = es.id := by
  obtain ⟨es, hes, hs'⟩ := Option.bind_eq_some.mp he
  obtain ⟨⟨b, s₁⟩, hr, rfl⟩ := Option.map_eq_some'.mp hs'
  obtain ⟨_, _, rfl⟩ := invoke_cases hr
  exact ⟨es, hes, rfl, rfl⟩

theorem settle_fault {s s' : Fsm P α} {next : StateId} {a : α} {dest err : Handler P α}
    (h : s.settle next a dest err = some (.fault, s')) :
    ∃ es, s.errorState = some es ∧ s'.status = .error ∧ s'.current = es.id := by
  obtain ⟨st, ok, s₁, -, hinv, ⟨-, hrv, -⟩ | ⟨-, -, s₂, he, rfl⟩⟩ := settle_cases h
  · cases hrv
  · obtain ⟨evs, fl, rfl⟩ := invoke_cases hinv
    obtain ⟨es, hes, hst, hcur⟩ := toErrorState_spec he
    exact ⟨es, hes, hst, hcur⟩

/-- A step that returns `Fault` went through `toErrorState`: the engine is in
`Error`, at its error state. -/
theorem step_fault {s s' : Fsm P α} {dest err : Handler P α} (hs : s.status ≠ .fault)
    (h : s.step dest err = some (.fault, s')) :
    s'.status = .error ∧ ∃ es, s.errorState = some es ∧ s'.current = es.id := by
  rcases step_cases h with ⟨-, hrv, -⟩ | ⟨e, a, rest, -, ⟨-, hrv, -⟩ | ⟨-, t, s₁, -, hset, rfl⟩⟩
  · cases hrv
  · exact absurd hrv.symm hs
  · obtain ⟨es, hes, hst, hcur⟩ := settle_fault hset
    exact ⟨hst, es, hes, hcur⟩

theorem stop_of_error {s : Fsm P α} (h : s.status = .error) : s.stop = some (true, s) := by
  simp [stop, running, h]

theorem valid_of_error {s : Fsm P α} (h : s.status = .error) : s.valid = some false := by
  simp [valid, h]

/-- **Recovery after a fault.** On a reachable engine, a step that returns
`Fault` leaves the status `Error`. Then `stop(false)` returns `true` and changes
nothing, `start(true)` changes nothing since `valid()` rejects the status, and
only `start(false)` runs the engine again, from its start state, which an
engine that has run always has. -/
theorem error_recovery {s s' : Fsm P α} {dest err : Handler P α} (hs : s.Reachable)
    (h : s.step dest err = some (.fault, s')) :
    s'.status = .error ∧ s'.stop = some (true, s') ∧ s'.start true = some s' ∧
      ∃ st, s'.startState = some st ∧
        s'.start false = some { s' with current := st.id, status := .running } := by
  have he := (step_fault hs.wf.status_ne_fault h).1
  have hs' : s'.Reachable := hs.apply (.step dest err) (by rw [apply, h]; rfl)
  obtain ⟨st, hst⟩ := Option.isSome_iff_exists.mp (hs'.wf.started (by rw [he]; nofun))
  refine ⟨he, stop_of_error he, ?_, st, hst, by simp [start, hst]⟩
  simp only [start, if_true, valid_of_error he]

theorem faultedLight_recovery :
    armedLight.Reachable ∧ armedLight.step (.returns false) (.returns true) = some (.fault, faultedLight) ∧
      faultedLight.status = .error ∧ faultedLight.stop = some (true, faultedLight) ∧
      faultedLight.start true = some faultedLight ∧
      ∃ st, faultedLight.startState = some st ∧
        faultedLight.start false = some { faultedLight with current := st.id, status := .running } :=
  have hrun : (trafficLight 3).run [.start true, .call (.raise 1 0)] = some armedLight := rfl
  have ha : armedLight.Reachable := (trafficLight_reachable 3).run hrun
  have h : armedLight.step (.returns false) (.returns true) = some (.fault, faultedLight) := rfl
  ⟨ha, h, error_recovery ha h⟩

/-- S2 after its fault: `stop(false)` reports success but the status stays
`Error`, and so does `start(true)`. -/
theorem fault_recovery_stays_error :
    faultedLight.status = .error ∧ faultedLight.current = 3 ∧
      faultedLight.stop.map (fun r => (r.1, r.2.status)) = some (true, .error) ∧
      (faultedLight.start true).map (·.status) = some .error := by
  decide

/-! ## Records that outlive a restart -/

/-- State `1` without a handler and state `2` with one; rows `(1, 1) → 2`,
`(2, 1) → 2` and `(2, 2) → 2`; start `1`, error and stop state `2`. State `1`
needs no row for event `2`, since it has no handler. -/
def restartDemo : Fsm Policy.u32 Nat :=
  let s := ((init.addState ⟨1, 0, false⟩).2.addState ⟨2, 0, true⟩).2
  let s := (((s.addTransition 1 ⟨1, 2⟩).2.addTransition 2 ⟨1, 2⟩).2.addTransition 2 ⟨2, 2⟩).2
  ((s.addStopState 2).2.setErrorState 2).2.setStartState 1

/-- `start(true)`, `raise(1)`, a step to `2`, `raise(2)` from `2`, `halt()` and
`start(true)` again. -/
def restartRun : List (Op Policy.u32 Nat) :=
  [.start true, .call (.raise 1 0), .step (.returns true) (.returns true), .call (.raise 2 0), .halt,
    .start true]

/-- After the restart the engine runs at `1` with event `2` still queued; `1`
has no row for it, so the next step dereferences an empty transition. -/
theorem stale_record_unresolved :
    restartDemo.valid = some true ∧
      (restartDemo.run restartRun).map (fun s => (s.status, s.current, s.events)) =
        some (.running, 1, [(2, 0)]) ∧
      (restartDemo.run restartRun).bind (fun s => (s.stateAt s.current).bind fun cur => s.lookup cur 2) =
        some none ∧
      ((restartDemo.run restartRun).bind fun s => s.step (.returns true) (.returns true)).isNone := by
  decide

end LwiotFsm.Fsm
