import LwiotFsm.Queue
import LwiotFsm.Hierarchy

/-!
# One step

A step on a running engine pops the front record, resolves it with `lookup`
from the current state, moves to the row's destination and runs its handler;
if the handler fails, the engine moves to the error state
(`step_executes_transition`).

The step relies on two things that no code checks. `toErrorState` dereferences
`m_error_state`, which an engine started with `start(false)` need not have. And
a handler's `raise` or `transition` runs `accept`, whose loop ends only if the
parent chain of the current state ends. `deterministic()` only resolves the
symbols of the alphabet, so a `valid()` engine can have a cycle of parents that
`accept` never leaves. The theorem assumes both, and
`step_without_error_state_or_acyclic` gives, for each, a step that has no
result without it. (`accept` takes `m_lock` and then calls `running()`, which
takes it again, so a thread may hold the lock twice, and a handler's calls run
inside the step.)
-/

namespace LwiotFsm.Fsm

variable {P : Policy} {α : Type}

/-! ## A handler runs to the end -/

theorem call_isSome {s : Fsm P α} (ha : ∀ e, (s.accept e).isSome) (c : Call P α) :
    (s.call c).isSome := by
  cases c <;> simp [call, raise, transition, ha]

/-- Where `accept` returns for every event, a handler's calls all return. -/
theorem applyCalls_isSome {s : Fsm P α} (ha : ∀ e, (s.accept e).isSome) (cs : List (Call P α)) :
    (s.applyCalls cs).isSome := by
  induction cs generalizing s with
  | nil => rfl
  | cons c cs ih =>
    obtain ⟨⟨b, s₁⟩, hc⟩ := Option.isSome_iff_exists.mp (call_isSome ha c)
    obtain ⟨evs, fl, rfl⟩ := call_queueOnly hc
    have ha₁ : ∀ e, ({ s with events := evs, inTransition := fl }.accept e).isSome := fun e =>
      (congrArg Option.isSome (accept_congr (by rfl) (by rfl) (by rfl) (by rfl) e)).trans (ha e)
    simpa [applyCalls, hc] using ih ha₁

/-- On an acyclic engine whose current state is registered, `invoke` returns
the handler's verdict, having logged the invocation and changed otherwise only
the queue and the in-transition flag. -/
theorem invoke_eq {s : Fsm P α} (hs : s.Acyclic) {cur : State}
    (hcur : s.stateAt s.current = some cur) (st : State) (h : Handler P α) (a : α) :
    ∃ s', s.invoke st h a = some (st.hasAction && (P.voidReturn || h.result a), s') ∧
      QueueOnly { s with invoked := s.invoked ++ if st.hasAction then [(st.id, a)] else [] } s' := by
  cases hact : st.hasAction
  · exact ⟨s, by simp [invoke, hact], by simpa using QueueOnly.refl s⟩
  · have hac : ({ s with invoked := s.invoked ++ [(st.id, a)] } : Fsm P α).Acyclic :=
      hs.congr (by rfl)
    have hcur' : ({ s with invoked := s.invoked ++ [(st.id, a)] } : Fsm P α).stateAt s.current =
        some cur := hcur
    obtain ⟨s', hs'⟩ :=
      Option.isSome_iff_exists.mp (applyCalls_isSome (hac.accept_isSome hcur') (h.calls a))
    exact ⟨s', by simp [invoke, action, hact, hs'], by simpa using applyCalls_queueOnly hs'⟩

theorem applyCalls_of_not_running {s : Fsm P α} (h : s.running = false) :
    ∀ cs : List (Call P α), s.applyCalls cs = some s
  | [] => rfl
  | c :: cs => by
    simp only [applyCalls, call_of_not_running h, Option.some_bind, applyCalls_of_not_running h cs]

/-- With an error state set, `toErrorState` moves there and invokes its
handler, if it has one, with the arguments. The handler runs in `Error`, where
every call is refused, so it changes nothing else. -/
theorem toErrorState_eq {s : Fsm P α} {es : State} (hes : s.errorState = some es)
    (h : Handler P α) (a : α) :
    s.toErrorState h a = some { s with
      current := es.id, status := .error,
      invoked := s.invoked ++ if es.hasAction then [(es.id, a)] else [] } := by
  cases hact : es.hasAction <;>
    simp [toErrorState, hes, invoke, action, hact, applyCalls_of_not_running, running]

/-! ## Settling in the destination -/

/-- `settle` at a registered destination of an acyclic engine with an error
state: the destination's handler runs, and the engine stays there if it
succeeds and moves to the error state if it fails. -/
theorem settle_eq {s : Fsm P α} (hs : s.Acyclic) {next : StateId} {st es : State}
    (hcur : s.current = next) (hnext : s.stateAt next = some st) (hes : s.errorState = some es)
    (a : α) (dest err : Handler P α) :
    ∃ s₁, QueueOnly { s with invoked := s.invoked ++ if st.hasAction then [(st.id, a)] else [] } s₁ ∧
      s₁.events = QueueOp.replay (s.invokeTrace st dest a) s.events ∧
      s.settle next a dest err = some
        (if st.hasAction && (P.voidReturn || dest.result a) then
          (.stateChanged, if s.isStopState next then s₁.signalStop else s₁)
        else (.fault, { s₁ with
          current := es.id, status := .error,
          invoked := s₁.invoked ++ if es.hasAction then [(es.id, a)] else [] }.signalStop)) := by
  subst hcur
  obtain ⟨s₁, hinv, hq⟩ := invoke_eq hs hnext st dest a
  obtain ⟨evs, fl, rfl⟩ := hq
  have hes₁ : ({ { s with invoked := s.invoked ++ if st.hasAction then [(st.id, a)] else [] } with
      events := evs, inTransition := fl } : Fsm P α).errorState = some es := hes
  refine ⟨_, ⟨evs, fl, rfl⟩, invoke_events hinv, ?_⟩
  simp only [settle, hnext, Option.some_bind, hinv]
  split
  · rfl
  · simp [toErrorState_eq hes₁]

/-! ## One step -/

/-- A step on a running engine resolves the front record from the current
state and settles in the row's destination. -/
theorem step_running {s : Fsm P α} (hrun : s.status = .running) {e : P.Event} {a : α}
    {rest : List (P.Event × α)} (hq : s.events = (e, a) :: rest) {cur : State}
    (hcur : s.stateAt s.current = some cur) (dest err : Handler P α) :
    s.step dest err = (((s.lookup cur e).bind id).bind fun t =>
      { s with events := rest, watchdog := s.watchdog + 1, current := t.next }.settle
        t.next a dest err).map fun (r : FsmStatus × Fsm P α) => (r.1, { r.2 with inTransition := false }) := by
  have hcur' :
    ({ s with events := rest, watchdog := s.watchdog + 1 } : Fsm P α).stateAt s.current =
      some cur := hcur
  have hl : ({ s with events := rest, watchdog := s.watchdog + 1 } : Fsm P α).lookup cur e =
    s.lookup cur e := lookup_congr (by rfl) (by rfl) cur e
  have hr : ({ s with events := rest, watchdog := s.watchdog + 1 } : Fsm P α).running = true := by
    simp [running, hrun]
  simp only [step_cons dest err hq, stepWith, resolve, resetWatchdog, hr, hcur', hl, ↓reduceIte,
    Option.some_bind]

/-- A step on a running engine whose front record resolves to `t` pops the
record, resets the watchdog and settles in `t.next`. -/
theorem step_eq_settle {s : Fsm P α} (hrun : s.status = .running) {e : P.Event} {a : α}
    {rest : List (P.Event × α)} (hq : s.events = (e, a) :: rest) {cur : State} {t : Transition P}
    (hcur : s.stateAt s.current = some cur) (ht : s.lookup cur e = some (some t))
    (dest err : Handler P α) :
    s.step dest err =
      ({ s with events := rest, watchdog := s.watchdog + 1, current := t.next }.settle
          t.next a dest err).map
        fun (r : FsmStatus × Fsm P α) => (r.1, { r.2 with inTransition := false }) := by
  rw [step_running hrun hq hcur dest err, ht]
  rfl

/-- **A step executes exactly one transition.** On a running, acyclic engine
with an error state, whose front record `(e, a)` resolves from the current
state to a row `t` with a registered destination, the step returns: the record
is popped, `m_in_transition` is clear, the automaton is unchanged, and the queue
is the rest of the old one with the destination handler's pushes. If the
destination has a handler and it succeeds, the engine is `Running` in `t.next`,
the stop event is pulsed iff `t.next` is a stop state, and that handler is the
one invocation, with the record's arguments. Otherwise the engine is in `Error`
at the error state, with the stop event pulsed, and the invocations are the
destination's handler, if it has one, and then the error state's, if it has
one, both with the record's arguments. -/
theorem step_executes_transition {s : Fsm P α} (hs : s.Acyclic) (hrun : s.status = .running)
    {e : P.Event} {a : α} {rest : List (P.Event × α)} (hq : s.events = (e, a) :: rest)
    {cur : State} {t : Transition P} (hcur : s.stateAt s.current = some cur)
    (ht : s.lookup cur e = some (some t)) {st : State} (hnext : s.stateAt t.next = some st)
    {es : State} (hes : s.errorState = some es) (dest err : Handler P α) :
    ∃ rv s', s.step dest err = some (rv, s') ∧ s'.inTransition = false ∧
      s'.automaton = s.automaton ∧
      s'.events = QueueOp.replay
        ({ s with events := rest, watchdog := s.watchdog + 1, current := t.next }.invokeTrace
          st dest a) rest ∧
      if st.hasAction && (P.voidReturn || dest.result a) then
        rv = .stateChanged ∧ s'.current = t.next ∧ s'.status = .running ∧
          s'.stopEvent = (if s.isStopState t.next then s.stopEvent + 1 else s.stopEvent) ∧
          s'.invoked = s.invoked ++ [(t.next, a)]
      else
        rv = .fault ∧ s'.current = es.id ∧ s'.status = .error ∧
          s'.stopEvent = s.stopEvent + 1 ∧
          s'.invoked = s.invoked ++ (if st.hasAction then [(t.next, a)] else []) ++
            if es.hasAction then [(es.id, a)] else [] := by
  obtain ⟨s₁, ⟨evs, fl, rfl⟩, hev, hset⟩ := settle_eq (hs.congr (by rfl)) (by rfl)
    (show ({ s with events := rest, watchdog := s.watchdog + 1, current := t.next } :
      Fsm P α).stateAt t.next = some st from hnext) hes a dest err
  have hstop : ({ s with events := rest, watchdog := s.watchdog + 1, current := t.next } :
      Fsm P α).isStopState t.next = s.isStopState t.next := rfl
  rw [step_eq_settle hrun hq hcur ht, hset, hstop, stateAt_id hnext]
  by_cases hok : (st.hasAction && (P.voidReturn || dest.result a)) = true
  · have hact : st.hasAction = true := ((Bool.and_eq_true _ _).mp hok).1
    simp only [hok, ↓reduceIte]
    simp only [hact, ↓reduceIte]
    split
    · exact ⟨_, _, rfl, rfl, rfl, hev, rfl, rfl, hrun, rfl, rfl⟩
    · exact ⟨_, _, rfl, rfl, rfl, hev, rfl, rfl, hrun, rfl, rfl⟩
  · simp only [hok, Bool.false_eq_true, ↓reduceIte]
    exact ⟨_, _, rfl, rfl, rfl, hev, rfl, rfl, rfl, rfl, rfl⟩

/-- Scenario S3 with the record `(tock, 0)` raised. -/
def hierarchyRaised : Fsm Policy.u32 Nat := ((hierarchyDemo.raise 1 0).map Prod.snd).getD init

/-- A handler that raises `(tock, 5)` and succeeds. -/
def raiseTock : Handler Policy.u32 Nat := ⟨fun _ => [.raise 1 5], fun _ => true⟩

theorem hierarchyRaised_step :
    hierarchyRaised.Acyclic ∧ hierarchyRaised.status = .running ∧
      hierarchyRaised.events = [(1, 0)] ∧
      hierarchyRaised.stateAt hierarchyRaised.current = some ⟨11, 10, true⟩ ∧
      hierarchyRaised.lookup ⟨11, 10, true⟩ 1 = some (some ⟨1, 11⟩) ∧
      hierarchyRaised.stateAt 11 = some ⟨11, 10, true⟩ ∧
      hierarchyRaised.errorState = some ⟨10, 0, true⟩ ∧
      ∃ rv s', hierarchyRaised.step raiseTock (.returns true) = some (rv, s') ∧
        s'.inTransition = false ∧ s'.automaton = hierarchyRaised.automaton ∧
        s'.events = QueueOp.replay
          ({ hierarchyRaised with
              events := [], watchdog := hierarchyRaised.watchdog + 1, current := 11 }.invokeTrace
            ⟨11, 10, true⟩ raiseTock 0) [] ∧
        if (⟨11, 10, true⟩ : State).hasAction &&
            (Policy.u32.voidReturn || raiseTock.result 0) then
          rv = .stateChanged ∧ s'.current = 11 ∧ s'.status = .running ∧
            s'.stopEvent = (if hierarchyRaised.isStopState 11 then hierarchyRaised.stopEvent + 1
              else hierarchyRaised.stopEvent) ∧
            s'.invoked = hierarchyRaised.invoked ++ [(11, 0)]
        else rv = .fault ∧ s'.current = 10 ∧ s'.status = .error ∧
          s'.stopEvent = hierarchyRaised.stopEvent + 1 ∧
          s'.invoked = hierarchyRaised.invoked ++
            (if (⟨11, 10, true⟩ : State).hasAction then [(11, 0)] else []) ++
              if (⟨10, 0, true⟩ : State).hasAction then [(10, 0)] else [] :=
  have hs : hierarchyRaised.Acyclic := hierarchyDemo_acyclic.congr (by rfl)
  have hrun : hierarchyRaised.status = .running := by decide
  have hq : hierarchyRaised.events = [(1, 0)] := by decide
  have hcur : hierarchyRaised.stateAt hierarchyRaised.current = some ⟨11, 10, true⟩ := by decide
  have ht : hierarchyRaised.lookup ⟨11, 10, true⟩ 1 = some (some ⟨1, 11⟩) := by decide
  have hnext : hierarchyRaised.stateAt 11 = some ⟨11, 10, true⟩ := by decide
  have hes : hierarchyRaised.errorState = some ⟨10, 0, true⟩ := by decide
  ⟨hs, hrun, hq, hcur, ht, hnext, hes,
    step_executes_transition hs hrun hq hcur ht hnext hes raiseTock (.returns true)⟩

/-- The step moves from `Child` to `Child` through `Parent`'s row, and the
handler's record is queued. -/
example :
    (hierarchyRaised.step raiseTock (.returns true)).map (fun r => (r.1, r.2.current, r.2.events)) =
      some (.stateChanged, 11, [(1, 5)]) := by
  decide

/-- One state `1` with a handler, its row `(1, 1) → 1`, start and stop state
`1`, and no error state; started with `start(false)`, which skips `valid()`,
and the record `(1, 0)` raised. -/
def unguardedDemo : Fsm Policy.u32 Nat :=
  let s := (((init.addState ⟨1, 0, true⟩).2.addTransition 1 ⟨1, 1⟩).2.addStopState 1).2
  ((((s.setStartState 1).start false).bind fun s => s.raise 1 0).map Prod.snd).getD init

/-- States `1` and `2`, each the other's parent, both with handlers; the row
`(1, 1) → 1`; start, stop and error state `1`. Both states resolve the one
symbol `1`, so the engine is `valid()`; started, and the record `(1, 0)` raised. -/
def cyclicDemo : Fsm Policy.u32 Nat :=
  let s := ((init.addState ⟨1, 2, true⟩).2.addState ⟨2, 1, true⟩).2
  let s := (((s.addTransition 1 ⟨1, 1⟩).2.addStopState 1).2.setErrorState 1).2
  ((((s.setStartState 1).start true).bind fun s => s.raise 1 0).map Prod.snd).getD init

/-- A handler that raises `(2, 0)` and succeeds. -/
def raiseTwo : Handler Policy.u32 Nat := ⟨fun _ => [.raise 2 0], fun _ => true⟩

/-- Steps with no result: the record resolves to a registered state, but
without an error state a failing handler leaves `toErrorState` nowhere to go,
and on a cycle of parents the handler's `raise(2)` never leaves `accept`. -/
theorem step_without_error_state_or_acyclic :
    ((unguardedDemo.status = .running ∧ unguardedDemo.events = [(1, 0)] ∧
        unguardedDemo.stateAt unguardedDemo.current = some ⟨1, 0, true⟩ ∧
        unguardedDemo.lookup ⟨1, 0, true⟩ 1 = some (some ⟨1, 1⟩) ∧
        unguardedDemo.stateAt 1 = some ⟨1, 0, true⟩ ∧ unguardedDemo.errorState = none) ∧
      unguardedDemo.Acyclic ∧ unguardedDemo.step (.returns false) (.returns true) = none) ∧
    ((cyclicDemo.valid = some true ∧ cyclicDemo.status = .running ∧
        cyclicDemo.events = [(1, 0)] ∧
        cyclicDemo.stateAt cyclicDemo.current = some ⟨1, 2, true⟩ ∧
        cyclicDemo.lookup ⟨1, 2, true⟩ 1 = some (some ⟨1, 1⟩) ∧
        cyclicDemo.stateAt 1 = some ⟨1, 2, true⟩ ∧
        cyclicDemo.errorState = some ⟨1, 2, true⟩) ∧
      ¬ cyclicDemo.Acyclic ∧ cyclicDemo.step raiseTwo (.returns true) = none) :=
  have hacyclic : unguardedDemo.Acyclic := fun st hst => by
    have hsts : unguardedDemo.states = [⟨1, 0, true⟩] := by decide
    rw [hsts, List.mem_singleton] at hst
    exact hst ▸ ⟨_, .root rfl, by decide⟩
  have hcyclic : ¬ cyclicDemo.Acyclic := fun h =>
    have hroot : ∀ r ∈ cyclicDemo.states, r.parent ≠ 0 := by decide
    let ⟨_, hc, _⟩ := h ⟨1, 2, true⟩ (by decide)
    let ⟨r, hr, h0⟩ := hc.exists_root (by decide)
    hroot r hr h0
  ⟨⟨by decide, hacyclic, rfl⟩, ⟨by decide, hcyclic, rfl⟩⟩

end LwiotFsm.Fsm
