import LwiotFsm.Engine

/-!
# Runs of a built engine

Once the builders are done, threads call `raise`, `transition`, `halt`,
`stop(false)` and `start`, and a driver loop calls the step; a step's handlers
call `raise` and `transition` in turn. A run is a list of these operations.
No operation changes the automaton the builders set up (`Automaton`): only the
status, the current state, the queue, the in-transition flag, the two
collaborators and the log of handler invocations.
-/

namespace LwiotFsm

/-- An operation on a built engine; `step` carries what the destination's and
the error state's handlers do if it invokes them. -/
inductive Op (P : Policy) (α : Type) where
  | call (c : Call P α)
  | step (dest err : Handler P α)
  | halt
  | stop
  | start (check : Bool)

/-- The automaton the builders set up. -/
structure Automaton (P : Policy) where
  stt : List (Nat × Transition P)
  states : List State
  stopStates : List State
  startState : Option State
  errorState : Option State
  alphabet : List P.Event

namespace Fsm

variable {P : Policy} {α : Type}

def apply (s : Fsm P α) : Op P α → Option (Fsm P α)
  | .call c => (s.call c).map Prod.snd
  | .step dest err => (s.step dest err).map Prod.snd
  | .halt => some s.halt
  | .stop => s.stop.map Prod.snd
  | .start check => s.start check

def run (s : Fsm P α) : List (Op P α) → Option (Fsm P α)
  | [] => some s
  | op :: ops => (s.apply op).bind fun s' => s'.run ops

def automaton (s : Fsm P α) : Automaton P :=
  ⟨s.stt, s.states, s.stopStates, s.startState, s.errorState, s.alphabet⟩

/-- What an accepted call does. -/
def push (s : Fsm P α) : Call P α → Fsm P α
  | .raise e a => s.addEvent (e, a) false
  | .transition e a => { s.addEvent (e, a) true with inTransition := true }

/-- `s'` differs from `s` at most in the queue and the in-transition flag. -/
def QueueOnly (s s' : Fsm P α) : Prop :=
  ∃ evs fl, s' = { s with events := evs, inTransition := fl }

/-! ## What a call can do -/

theorem QueueOnly.refl (s : Fsm P α) : QueueOnly s s := ⟨s.events, s.inTransition, rfl⟩

theorem QueueOnly.trans {s₁ s₂ s₃ : Fsm P α} :
    QueueOnly s₁ s₂ → QueueOnly s₂ s₃ → QueueOnly s₁ s₃ := by
  rintro ⟨e₁, f₁, rfl⟩ ⟨e₂, f₂, rfl⟩
  exact ⟨e₂, f₂, rfl⟩

theorem push_queueOnly (s : Fsm P α) (c : Call P α) : QueueOnly s (s.push c) := by
  cases c <;> exact ⟨_, _, rfl⟩

/-- A call either is refused and changes nothing, or is accepted and pushes. -/
theorem call_eq {s s' : Fsm P α} {c : Call P α} {b : Bool} (h : s.call c = some (b, s')) :
    s' = if b then s.push c else s := by
  cases c with
  | raise e a =>
    obtain ⟨ok, -, hok⟩ := Option.map_eq_some'.mp h
    cases ok <;> cases hok <;> rfl
  | transition e a =>
    obtain ⟨ok, -, hok⟩ := Option.map_eq_some'.mp h
    split at hok <;> cases hok <;> rfl

theorem call_queueOnly {s s' : Fsm P α} {c : Call P α} {b : Bool} (h : s.call c = some (b, s')) :
    QueueOnly s s' := by
  rw [call_eq h]
  split
  · exact push_queueOnly s c
  · exact QueueOnly.refl s

theorem applyCalls_queueOnly {s s' : Fsm P α} {cs : List (Call P α)}
    (h : s.applyCalls cs = some s') : QueueOnly s s' := by
  induction cs generalizing s with
  | nil => cases h; exact QueueOnly.refl _
  | cons c cs ih =>
    obtain ⟨r, hc, hr⟩ := Option.bind_eq_some.mp h
    exact (call_queueOnly hc).trans (ih hr)

/-- Entering a handler logs its state and arguments; a state without one runs
nothing. The handler's calls write only the queue and the flag. -/
theorem invoke_cases {s s' : Fsm P α} {st : State} {h : Handler P α} {a : α} {b : Bool}
    (hi : s.invoke st h a = some (b, s')) :
    QueueOnly { s with invoked := s.invoked ++ if st.hasAction then [(st.id, a)] else [] } s' := by
  unfold invoke action at hi
  split at hi
  · next hact =>
    obtain ⟨s₁, hs₁, hb⟩ := Option.map_eq_some'.mp hi
    cases hb
    simpa [hact] using applyCalls_queueOnly hs₁
  · next hact =>
    cases hi
    simpa [hact] using QueueOnly.refl s

/-! ## No operation changes the automaton -/

/-- `s'` differs from `s` at most in the fields executing a record writes: the
queue, the in-transition flag, the current state, the stop event, the log of
invocations, and the status, which it only ever sets to `Error`. -/
def Executes (s s' : Fsm P α) : Prop :=
  ∃ evs fl cur st n inv, (st = s.status ∨ st = .error) ∧
    s' = { s with
      events := evs, inTransition := fl, current := cur, status := st, stopEvent := n,
      invoked := inv }

theorem QueueOnly.executes {s s' : Fsm P α} (h : QueueOnly s s') : Executes s s' := by
  obtain ⟨evs, fl, rfl⟩ := h
  exact ⟨evs, fl, s.current, s.status, s.stopEvent, s.invoked, .inl rfl, rfl⟩

theorem Executes.trans {s₁ s₂ s₃ : Fsm P α} : Executes s₁ s₂ → Executes s₂ s₃ → Executes s₁ s₃ := by
  rintro ⟨_, _, _, st₂, _, _, h₂, rfl⟩ ⟨evs, fl, cur, st₃, n, inv, h₃, rfl⟩
  refine ⟨evs, fl, cur, st₃, n, inv, ?_, rfl⟩
  rcases h₃ with rfl | h₃
  · exact h₂
  · exact .inr h₃

theorem Executes.automaton {s s' : Fsm P α} (h : Executes s s') : s'.automaton = s.automaton := by
  obtain ⟨_, _, _, _, _, _, -, rfl⟩ := h
  rfl

theorem Executes.watchdog {s s' : Fsm P α} (h : Executes s s') : s'.watchdog = s.watchdog := by
  obtain ⟨_, _, _, _, _, _, -, rfl⟩ := h
  rfl

theorem QueueOnly.automaton {s s' : Fsm P α} (h : QueueOnly s s') : s'.automaton = s.automaton :=
  h.executes.automaton

theorem invoke_executes {s s' : Fsm P α} {st : State} {h : Handler P α} {a : α} {b : Bool}
    (hi : s.invoke st h a = some (b, s')) : Executes s s' :=
  Executes.trans ⟨s.events, s.inTransition, s.current, s.status, s.stopEvent, _, .inl rfl, rfl⟩
    (invoke_cases hi).executes

theorem toErrorState_executes {s s' : Fsm P α} {h : Handler P α} {a : α}
    (he : s.toErrorState h a = some s') : Executes s s' := by
  obtain ⟨es, -, hes⟩ := Option.bind_eq_some.mp he
  obtain ⟨r, hr, rfl⟩ := Option.map_eq_some'.mp hes
  exact Executes.trans ⟨s.events, s.inTransition, es.id, .error, s.stopEvent, s.invoked, .inr rfl, rfl⟩
    (invoke_executes hr)

theorem signalStop_executes (s : Fsm P α) : Executes s s.signalStop :=
  ⟨s.events, s.inTransition, s.current, s.status, s.stopEvent + 1, s.invoked, .inl rfl, rfl⟩

/-- What `settle` does: the destination is registered and its handler runs;
then the engine either stays, with the stop event pulsed at a stop state, or
goes through `toErrorState` and pulses it. -/
theorem settle_cases {s s' : Fsm P α} {next : StateId} {a : α} {dest err : Handler P α}
    {rv : FsmStatus} (h : s.settle next a dest err = some (rv, s')) :
    ∃ st ok s₁, s.stateAt next = some st ∧ s.invoke st dest a = some (ok, s₁) ∧
      ((ok = true ∧ rv = .stateChanged ∧ s' = if s₁.isStopState next then s₁.signalStop else s₁) ∨
        ok = false ∧ rv = .fault ∧ ∃ s₂, s₁.toErrorState err a = some s₂ ∧ s' = s₂.signalStop) := by
  obtain ⟨st, hst, h₁⟩ := Option.bind_eq_some.mp h
  obtain ⟨⟨ok, s₁⟩, hinv, hr⟩ := Option.bind_eq_some.mp h₁
  refine ⟨st, ok, s₁, hst, hinv, ?_⟩
  cases ok
  · obtain ⟨s₂, he, hs₂⟩ := Option.map_eq_some'.mp hr
    cases hs₂
    exact .inr ⟨rfl, rfl, s₂, he, rfl⟩
  · cases hr
    exact .inl ⟨rfl, rfl, rfl⟩

theorem settle_executes {s s' : Fsm P α} {next : StateId} {a : α} {dest err : Handler P α}
    {rv : FsmStatus} (h : s.settle next a dest err = some (rv, s')) : Executes s s' := by
  obtain ⟨st, ok, s₁, -, hinv, hr⟩ := settle_cases h
  have h₁ := invoke_executes hinv
  rcases hr with ⟨-, -, rfl⟩ | ⟨-, -, s₂, he, rfl⟩
  · split
    · exact h₁.trans (signalStop_executes s₁)
    · exact h₁
  · exact (h₁.trans (toErrorState_executes he)).trans (signalStop_executes s₂)

/-! ## What a step does -/

theorem step_nil {s : Fsm P α} (dest err : Handler P α) (h : s.events = []) :
    s.step dest err = some (.stateUnchanged, s) := by
  simp only [step, h]

theorem step_cons {s : Fsm P α} (dest err : Handler P α) {e : P.Event} {a : α}
    {rest : List (P.Event × α)} (h : s.events = (e, a) :: rest) :
    s.step dest err = ({ s with events := rest }.stepWith e a dest err).map
      fun (r : FsmStatus × Fsm P α) => (r.1, { r.2 with inTransition := false }) := by
  simp only [step, h]

/-- The inner `transition`: the watchdog is reset, and a running engine resolves
the record and settles in the destination, while any other returns its status. -/
theorem stepWith_cases {s s' : Fsm P α} {e : P.Event} {a : α} {dest err : Handler P α}
    {rv : FsmStatus} (h : s.stepWith e a dest err = some (rv, s')) :
    (s.status ≠ .running ∧ rv = s.status ∧ s' = s.resetWatchdog) ∨
      s.status = .running ∧ ∃ t, s.resetWatchdog.resolve e = some t ∧
        { s.resetWatchdog with current := t.next }.settle t.next a dest err = some (rv, s') := by
  unfold stepWith at h
  split at h
  · next hr =>
    obtain ⟨t, ht, h₁⟩ := Option.bind_eq_some.mp h
    exact .inr ⟨by simpa [running, resetWatchdog] using hr, t, ht, h₁⟩
  · next hr =>
    cases h
    exact .inl ⟨by simpa [running, resetWatchdog] using hr, rfl, rfl⟩

/-- **What a step can do.** On an empty queue it returns `StateUnchanged` and
changes nothing. Otherwise it pops the front record and resets the watchdog;
an engine that is not running returns its status, and a running one resolves
the record and settles in the destination. Either way the flag is cleared. -/
theorem step_cases {s s' : Fsm P α} {dest err : Handler P α} {rv : FsmStatus}
    (h : s.step dest err = some (rv, s')) :
    (s.events = [] ∧ rv = .stateUnchanged ∧ s' = s) ∨
      ∃ e a rest, s.events = (e, a) :: rest ∧
        ((s.status ≠ .running ∧ rv = s.status ∧
            s' = { s with events := rest, watchdog := s.watchdog + 1, inTransition := false }) ∨
          s.status = .running ∧ ∃ t s₁,
            ({ s with events := rest, watchdog := s.watchdog + 1 } : Fsm P α).resolve e = some t ∧
            ({ s with events := rest, watchdog := s.watchdog + 1, current := t.next } :
              Fsm P α).settle t.next a dest err = some (rv, s₁) ∧
            s' = { s₁ with inTransition := false }) := by
  cases hq : s.events with
  | nil =>
    rw [step_nil dest err hq] at h
    cases h
    exact .inl ⟨rfl, rfl, rfl⟩
  | cons r rest =>
    obtain ⟨e, a⟩ := r
    rw [step_cons dest err hq] at h
    obtain ⟨⟨rv', s₁⟩, hs₁, hr⟩ := Option.map_eq_some'.mp h
    cases hr
    refine .inr ⟨e, a, rest, rfl, ?_⟩
    rcases stepWith_cases hs₁ with ⟨hrun, hrv, rfl⟩ | ⟨hrun, t, ht, hset⟩
    · exact .inl ⟨hrun, hrv, rfl⟩
    · exact .inr ⟨hrun, t, s₁, ht, hset, rfl⟩

/-- A step on a non-empty queue pops it and resets the watchdog once; what it
does next only writes the fields `Executes` allows. -/
theorem step_cons_executes {s s' : Fsm P α} {dest err : Handler P α} {rv : FsmStatus}
    {r : P.Event × α} {rest : List (P.Event × α)} (hq : s.events = r :: rest)
    (h : s.step dest err = some (rv, s')) :
    Executes { s with events := rest, watchdog := s.watchdog + 1 } s' := by
  rcases step_cases h with ⟨hnil, -⟩ | ⟨e, a, rest', hq', hr⟩
  · simp [hq] at hnil
  obtain ⟨-, rfl⟩ := List.cons.inj (hq.symm.trans hq')
  rcases hr with ⟨-, -, rfl⟩ | ⟨-, t, s₁, -, hset, rfl⟩
  · exact ⟨rest, false, s.current, s.status, s.stopEvent, s.invoked, .inl rfl, rfl⟩
  · have h₁ : Executes { s with events := rest, watchdog := s.watchdog + 1 }
        { s with events := rest, watchdog := s.watchdog + 1, current := t.next } :=
      ⟨rest, s.inTransition, t.next, s.status, s.stopEvent, s.invoked, .inl rfl, rfl⟩
    exact (h₁.trans (settle_executes hset)).trans
      ⟨s₁.events, false, s₁.current, s₁.status, s₁.stopEvent, s₁.invoked, .inl rfl, rfl⟩

/-- What an operation may write: every field outside the automaton, with a
status that is never `Fault` unless it already was. -/
def Operates (s s' : Fsm P α) : Prop :=
  ∃ evs fl cur st w n inv, (s.status ≠ .fault → st ≠ .fault) ∧
    s' = { s with
      events := evs, inTransition := fl, current := cur, status := st, watchdog := w,
      stopEvent := n, invoked := inv }

theorem Operates.refl (s : Fsm P α) : Operates s s :=
  ⟨s.events, s.inTransition, s.current, s.status, s.watchdog, s.stopEvent, s.invoked, id, rfl⟩

theorem Operates.trans {s₁ s₂ s₃ : Fsm P α} : Operates s₁ s₂ → Operates s₂ s₃ → Operates s₁ s₃ := by
  rintro ⟨_, _, _, _, _, _, _, h₂, rfl⟩ ⟨evs, fl, cur, st, w, n, inv, h₃, rfl⟩
  exact ⟨evs, fl, cur, st, w, n, inv, h₃ ∘ h₂, rfl⟩

theorem Operates.ofStatus (s : Fsm P α) (cur : StateId) {st : FsmStatus} (h : st ≠ .fault) :
    Operates s { s with current := cur, status := st } :=
  ⟨s.events, s.inTransition, cur, st, s.watchdog, s.stopEvent, s.invoked, fun _ => h, rfl⟩

theorem Executes.operates {s s' : Fsm P α} (h : Executes s s') : Operates s s' := by
  obtain ⟨evs, fl, cur, st, n, inv, hst, rfl⟩ := h
  refine ⟨evs, fl, cur, st, s.watchdog, n, inv, fun hs => ?_, rfl⟩
  rcases hst with rfl | rfl
  · exact hs
  · nofun

theorem Operates.automaton {s s' : Fsm P α} (h : Operates s s') : s'.automaton = s.automaton := by
  obtain ⟨_, _, _, _, _, _, _, -, rfl⟩ := h
  rfl

theorem Operates.status_ne_fault {s s' : Fsm P α} (h : Operates s s') (hs : s.status ≠ .fault) :
    s'.status ≠ .fault := by
  obtain ⟨_, _, _, _, _, _, _, hst, rfl⟩ := h
  exact hst hs

theorem step_operates {s s' : Fsm P α} {dest err : Handler P α} {rv : FsmStatus}
    (h : s.step dest err = some (rv, s')) : Operates s s' := by
  rcases step_cases h with ⟨-, -, rfl⟩ | ⟨e, a, rest, hq, -⟩
  · exact Operates.refl _
  · exact Operates.trans
      ⟨rest, s.inTransition, s.current, s.status, s.watchdog + 1, s.stopEvent, s.invoked, id, rfl⟩
      (step_cons_executes hq h).operates

/-- What `halt`, `stop(false)` and `start` may write: the current state and a
status other than `Fault`. -/
def Controls (s s' : Fsm P α) : Prop :=
  s' = s ∨ ∃ cur st, st ≠ .fault ∧ s' = { s with current := cur, status := st }

theorem Controls.operates {s s' : Fsm P α} (h : Controls s s') : Operates s s' := by
  rcases h with rfl | ⟨cur, st, hst, rfl⟩
  · exact Operates.refl s'
  · exact Operates.ofStatus s cur hst

theorem Controls.events {s s' : Fsm P α} (h : Controls s s') : s'.events = s.events := by
  rcases h with rfl | ⟨_, _, -, rfl⟩ <;> rfl

theorem halt_controls (s : Fsm P α) : Controls s s.halt := by
  unfold halt
  split
  · exact .inr ⟨s.current, .stopped, nofun, rfl⟩
  · exact .inl rfl

/-- `stop(false)` either changes nothing or stops the engine. -/
theorem stop_eq {s s' : Fsm P α} {b : Bool} (h : s.stop = some (b, s')) :
    s' = s ∨ s' = { s with status := .stopped } := by
  unfold stop at h
  split at h
  · cases h
    exact .inl rfl
  · obtain ⟨cur, -, hcur⟩ := Option.bind_eq_some.mp h
    obtain ⟨err, -, he⟩ := Option.map_eq_some'.mp hcur
    split at he <;> cases he
    · exact .inr rfl
    · exact .inl rfl

/-- `start(check)` either changes nothing or runs the engine at its start state. -/
theorem start_eq {s s' : Fsm P α} {check : Bool} (h : s.start check = some s') :
    s' = s ∨ ∃ st, s.startState = some st ∧ s' = { s with current := st.id, status := .running } := by
  unfold start at h
  split at h
  · cases h
  · cases h
    exact .inl rfl
  · obtain ⟨st, hst, rfl⟩ := Option.map_eq_some'.mp h
    exact .inr ⟨st, hst, rfl⟩

theorem stop_controls {s s' : Fsm P α} {b : Bool} (h : s.stop = some (b, s')) : Controls s s' := by
  rcases stop_eq h with h' | h'
  · exact .inl h'
  · exact .inr ⟨s.current, .stopped, nofun, h'⟩

theorem start_controls {s s' : Fsm P α} {check : Bool} (h : s.start check = some s') :
    Controls s s' := by
  rcases start_eq h with h' | ⟨st, -, h'⟩
  · exact .inl h'
  · exact .inr ⟨st.id, .running, nofun, h'⟩

theorem apply_operates {s s' : Fsm P α} {op : Op P α} (h : s.apply op = some s') :
    Operates s s' := by
  cases op with
  | call c =>
    obtain ⟨⟨b, s₁⟩, hc, rfl⟩ := Option.map_eq_some'.mp h
    exact (call_queueOnly hc).executes.operates
  | step dest err =>
    obtain ⟨⟨rv, s₁⟩, hs, rfl⟩ := Option.map_eq_some'.mp h
    exact step_operates hs
  | halt =>
    cases h
    exact (halt_controls s).operates
  | stop =>
    obtain ⟨⟨b, s₁⟩, hs, rfl⟩ := Option.map_eq_some'.mp h
    exact (stop_controls hs).operates
  | start check => exact (start_controls h).operates

/-- A step leaves the status as it was unless the engine was running. -/
theorem step_status_ne_stopped {s s' : Fsm P α} {dest err : Handler P α} {rv : FsmStatus}
    (h : s.step dest err = some (rv, s')) (hs : s'.status ≠ .stopped) : s.status ≠ .stopped := by
  rcases step_cases h with ⟨-, -, rfl⟩ | ⟨e, a, rest, -, ⟨-, -, rfl⟩ | ⟨hrun, -⟩⟩
  · exact hs
  · exact hs
  · rw [hrun]
    nofun

/-- Only `start` sets an engine going, and only from its start state: an
operation that leaves the engine anything but `Stopped` keeps a start state. -/
theorem apply_started {s s' : Fsm P α} {op : Op P α} (h : s.apply op = some s')
    (hs : s.status ≠ .stopped → s.startState.isSome) :
    s'.status ≠ .stopped → s'.startState.isSome := by
  have hstart : s'.startState = s.startState :=
    congrArg Automaton.startState (apply_operates h).automaton
  rw [hstart]
  cases op with
  | call c =>
    obtain ⟨⟨b, s₁⟩, hc, rfl⟩ := Option.map_eq_some'.mp h
    obtain ⟨evs, fl, rfl⟩ := call_queueOnly hc
    exact hs
  | step dest err =>
    obtain ⟨⟨rv, s₁⟩, hst, rfl⟩ := Option.map_eq_some'.mp h
    exact fun h' => hs (step_status_ne_stopped hst h')
  | halt =>
    cases h
    unfold halt
    split
    · exact fun h' => absurd rfl h'
    · exact hs
  | stop =>
    obtain ⟨⟨b, s₁⟩, hst, rfl⟩ := Option.map_eq_some'.mp h
    rcases stop_eq hst with h' | h' <;> rw [h']
    · exact hs
    · exact fun h' => absurd rfl h'
  | start check =>
    rcases start_eq h with h' | ⟨st, hst, -⟩
    · rw [h']
      exact hs
    · exact fun _ => by simp [hst]

/-- The traffic light of scenarios S1 and S2 of the spec: `G = 1`, `Y = 2` and
`R = 3`, all with handlers, and `tick = 1` cycling `G → Y → R → G`; start `G`,
stop `R`, and the given error state (`G` in S1, `R` in S2). -/
def trafficLight (error : StateId) : Fsm Policy.u32 Nat :=
  let s := (((init.addState ⟨1, 0, true⟩).2.addState ⟨2, 0, true⟩).2.addState ⟨3, 0, true⟩).2
  let s := (((s.addTransition 1 ⟨1, 2⟩).2.addTransition 2 ⟨1, 3⟩).2.addTransition 3 ⟨1, 1⟩).2
  ((s.addStopState 3).2.setErrorState error).2.setStartState 1

theorem run_automaton {s s' : Fsm P α} {ρ : List (Op P α)} (h : s.run ρ = some s') :
    s'.automaton = s.automaton := by
  induction ρ generalizing s with
  | nil => cases h; rfl
  | cons op ρ ih =>
    obtain ⟨s₁, h₁, h₂⟩ := Option.bind_eq_some.mp h
    exact (ih h₂).trans (apply_operates h₁).automaton

/-- S1 started, ticked and stepped from `G` to `Y`: the run writes the status,
the current state, the queue, the watchdog and the log, but not the automaton. -/
theorem trafficLight_run_automaton :
    ∃ s', (trafficLight 1).run
        [.start true, .call (.raise 1 0), .step (.returns true) (.returns true)] = some s' ∧
      s'.automaton = (trafficLight 1).automaton :=
  ⟨_, rfl, @run_automaton _ _ _ _
    [.start true, .call (.raise 1 0), .step (.returns true) (.returns true)] rfl⟩

/-! ## Reachable engines -/

/-- The engines the API produces: `FsmBase()`, then builder calls, operations,
copies and moves (a move is two copies, `swap`). -/
inductive Reachable : Fsm P α → Prop
  | init : Reachable init
  | addState {s : Fsm P α} (st : State) : Reachable s → Reachable (s.addState st).2
  | addStates {s : Fsm P α} (sts : List State) : Reachable s → Reachable (s.addStates sts).2
  | setStartState {s : Fsm P α} (id : StateId) : Reachable s → Reachable (s.setStartState id)
  | setErrorState {s : Fsm P α} (id : StateId) : Reachable s → Reachable (s.setErrorState id).2
  | addStopState {s : Fsm P α} (id : StateId) : Reachable s → Reachable (s.addStopState id).2
  | addStopStates {s s' : Fsm P α} (ids : List StateId) {b : Bool} :
      Reachable s → s.addStopStates ids = some (b, s') → Reachable s'
  | addAlphabetSymbol {s : Fsm P α} (e : P.Event) :
      Reachable s → Reachable (s.addAlphabetSymbol e).2
  | addTransition {s : Fsm P α} (id : StateId) (t : Transition P) :
      Reachable s → Reachable (s.addTransition id t).2
  | addTransitionArgs {s : Fsm P α} (id : StateId) (e : P.Event) (next : StateId) :
      Reachable s → Reachable (s.addTransitionArgs id e next).2
  | apply {s s' : Fsm P α} (op : Op P α) : Reachable s → s.apply op = some s' → Reachable s'
  | copy {s o : Fsm P α} : Reachable s → Reachable o → Reachable (s.copy o)

theorem trafficLight_reachable (error : StateId) : (trafficLight error).Reachable :=
  .setStartState _ <| .setErrorState _ <| .addStopState _ <| .addTransition _ _ <|
    .addTransition _ _ <| .addTransition _ _ <| .addState _ <| .addState _ <| .addState _ .init

theorem Reachable.run {s s' : Fsm P α} {ρ : List (Op P α)} (hs : s.Reachable)
    (h : s.run ρ = some s') : s'.Reachable := by
  induction ρ generalizing s with
  | nil => cases h; exact hs
  | cons op ρ ih =>
    obtain ⟨s₁, h₁, h₂⟩ := Option.bind_eq_some.mp h
    exact ih (hs.apply op h₁) h₂

/-- What every reachable engine keeps: each row is stored under the key of its
own event, the alphabet holds no symbol twice, the status is never `Fault`,
which a step only returns, and an engine that is not `Stopped` has a start
state. -/
structure Wf (s : Fsm P α) : Prop where
  keyed : ∀ k t, (k, t) ∈ s.stt → ∃ id, k = sttKey P.layout id t.event
  nodup : s.alphabet.Nodup
  status_ne_fault : s.status ≠ .fault
  started : s.status ≠ .stopped → s.startState.isSome

theorem Wf.congr {s s' : Fsm P α} (h : s.Wf) (hstt : s'.stt = s.stt)
    (halpha : s'.alphabet = s.alphabet) (hstatus : s.status ≠ .fault → s'.status ≠ .fault)
    (hstart : (s.status ≠ .stopped → s.startState.isSome) →
      s'.status ≠ .stopped → s'.startState.isSome) : s'.Wf :=
  ⟨hstt ▸ h.keyed, halpha ▸ h.nodup, hstatus h.status_ne_fault, hstart h.started⟩

theorem nodup_append_singleton {l : List P.Event} {e : P.Event} (h : l.Nodup)
    (he : ¬l.contains e = true) : (l ++ [e]).Nodup :=
  List.nodup_append.mpr ⟨h, List.nodup_singleton e, by simpa using he⟩

theorem Wf.updateAlphabet {s : Fsm P α} (h : s.Wf) (t : Transition P) :
    (s.updateAlphabet t).Wf := by
  unfold Fsm.updateAlphabet
  split
  next => exact h
  next hc => exact ⟨h.keyed, nodup_append_singleton h.nodup hc, h.status_ne_fault, h.started⟩

theorem Wf.emplaceRow {s : Fsm P α} (h : s.Wf) {id : StateId} (t : Transition P) :
    (s.emplaceRow (sttKey P.layout id t.event) t).2.Wf := by
  unfold Fsm.emplaceRow
  split
  · exact h
  · refine ⟨fun k t' hk => ?_, h.nodup, h.status_ne_fault, h.started⟩
    rcases List.mem_append.mp hk with hk | hk
    · exact h.keyed k t' hk
    · simp only [List.mem_singleton, Prod.mk.injEq] at hk
      exact ⟨id, hk.2 ▸ hk.1⟩

theorem addStates_eq (sts : List State) (s : Fsm P α) :
    ∃ states, (s.addStates sts).2 = { s with states := states } := by
  induction sts generalizing s with
  | nil => exact ⟨s.states, rfl⟩
  | cons st sts ih =>
    unfold addStates
    split
    · exact ⟨s.states, rfl⟩
    · exact ih _

/-- `addStopStates`' second loop only appends registered states to the stop
states. -/
theorem appendStopStates_eq {s s' : Fsm P α} :
    ∀ {ids : List StateId}, s.appendStopStates ids = some s' →
      ∃ sts, (∀ st ∈ sts, st ∈ s.states) ∧ s' = { s with stopStates := s.stopStates ++ sts }
  | [], h => by
    cases h
    exact ⟨[], nofun, by simp⟩
  | id :: ids, h => by
    obtain ⟨st, hst, h₁⟩ := Option.bind_eq_some.mp h
    obtain ⟨sts, hsts, rfl⟩ := appendStopStates_eq h₁
    refine ⟨st :: sts, ?_, by simp⟩
    rintro x (_ | ⟨_, hx⟩)
    · exact List.mem_of_find?_eq_some hst
    · exact hsts x hx

theorem addStopStates_eq {s s' : Fsm P α} {ids : List StateId} {b : Bool}
    (h : s.addStopStates ids = some (b, s')) :
    ∃ sts, (∀ st ∈ sts, st ∈ s.states) ∧ s' = { s with stopStates := s.stopStates ++ sts } := by
  unfold addStopStates at h
  split at h
  · obtain ⟨s₁, h₁, hb⟩ := Option.map_eq_some'.mp h
    cases hb
    exact appendStopStates_eq h₁
  · cases h
    exact ⟨[], nofun, by simp⟩

theorem Reachable.wf {s : Fsm P α} (h : s.Reachable) : s.Wf := by
  induction h with
  | init => exact ⟨fun _ _ h => absurd h (List.not_mem_nil _), List.nodup_nil, nofun, fun h => absurd rfl h⟩
  | addState st _ ih => unfold Fsm.addState; split <;> exact ih.congr rfl rfl id id
  | @addStates s sts _ ih =>
    obtain ⟨states, h⟩ := addStates_eq sts s
    rw [h]
    exact ih.congr rfl rfl id id
  | setStartState _ _ ih =>
    unfold Fsm.setStartState
    split
    · exact ih.congr rfl rfl id id
    · exact ih.congr rfl rfl id fun _ _ => rfl
  | setErrorState _ _ ih => unfold Fsm.setErrorState; split <;> exact ih.congr rfl rfl id id
  | addStopState _ _ ih => unfold Fsm.addStopState; split <;> exact ih.congr rfl rfl id id
  | addStopStates ids _ hb ih =>
    obtain ⟨sts, -, rfl⟩ := addStopStates_eq hb
    exact ih.congr rfl rfl id id
  | addAlphabetSymbol e _ ih =>
    unfold Fsm.addAlphabetSymbol
    split
    next => exact ih
    next hc => exact ⟨ih.keyed, nodup_append_singleton ih.nodup hc, ih.status_ne_fault, ih.started⟩
  | addTransition id t _ ih => exact (ih.updateAlphabet t).emplaceRow t
  | addTransitionArgs id e next _ ih =>
    rw [Fsm.addTransitionArgs, sttKeyArgs_eq]
    exact (ih.updateAlphabet ⟨e, next⟩).emplaceRow (⟨e, next⟩ : Transition P)
  | apply op _ hop ih =>
    have ha := apply_operates hop
    exact ih.congr (congrArg Automaton.stt ha.automaton) (congrArg Automaton.alphabet ha.automaton)
      ha.status_ne_fault (apply_started hop)
  | copy _ _ ihs iho => exact ⟨iho.keyed, ihs.nodup, iho.status_ne_fault, iho.started⟩

end Fsm

end LwiotFsm
