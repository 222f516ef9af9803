import LwiotFsm.Table

/-!
# Validation

`valid()` checks the status, that states, a start, an error and a stop state
are set, and `deterministic()`. The latter only asks every handler-bearing
state to resolve every alphabet symbol through its parent chain. Its epsilon
check inserts each alphabet symbol once into a fresh set, and the alphabet has
no repeats, so the check never fires (`checkDeterministic_ne_epsilon`): a state
whose own row shadows a parent's row on the same symbol passes (scenario S4 of
the spec). Nor does anything check that a row's states are registered.
-/

namespace LwiotFsm.Fsm

variable {P : Policy} {α : Type}

/-! ## The epsilon check -/

/-- Scanning symbols without repeats, none of them already accepted, never
finds a symbol in `accepts`. -/
theorem scanSymbols_ne_epsilon {s : Fsm P α} {st : State} {id : StateId} {e : P.Event} :
    ∀ {accepts es : List P.Event}, (accepts ++ es).Nodup →
      s.scanSymbols st accepts es ≠ some (some (.epsilonTransition id e))
  | _, [], _ => by simp [scanSymbols]
  | accepts, x :: es, h => by
    have hx : x ∉ accepts := fun hx => List.disjoint_of_nodup_append h hx (List.mem_cons_self x es)
    have h' : ((x :: accepts) ++ es).Nodup := (List.perm_middle.nodup_iff).mp h
    unfold scanSymbols
    intro hs
    obtain ⟨r, -, hr⟩ := Option.bind_eq_some.mp hs
    split at hr
    · cases hr
    · split at hr
      next hc => exact hx (by simpa using hc)
      next => exact scanSymbols_ne_epsilon h' hr

theorem scanStates_ne_epsilon {s : Fsm P α} (h : s.alphabet.Nodup) {id : StateId} {e : P.Event} :
    ∀ sts : List State, s.scanStates sts ≠ some (some (.epsilonTransition id e))
  | [] => by simp [scanStates]
  | st :: sts => by
    unfold scanStates
    intro hs
    obtain ⟨d, hd, hr⟩ := Option.bind_eq_some.mp hs
    cases d with
    | none => exact scanStates_ne_epsilon h sts hr
    | some d =>
      cases hr
      exact scanSymbols_ne_epsilon (show ([] ++ s.alphabet).Nodup from h) hd

/-- Scenario S4 of the spec: `A = 1`, and `B = 2` with parent `A`, both with
handlers; rows `(A, x) → B` and `(B, x) → A` for `x = 1`. -/
def epsilonDemo : Fsm Policy.u32 Nat :=
  let s := (init.addState ⟨1, 0, true⟩).2
  let s := (s.addState ⟨2, 1, true⟩).2
  let s := (s.addTransition 1 ⟨1, 2⟩).2
  let s := (s.addTransition 2 ⟨1, 1⟩).2
  let s := (s.addStopState 1).2
  (s.setErrorState 1).2.setStartState 1

/-- On a reachable engine `deterministic()` never reports an epsilon
transition: its only failure is a missing one. -/
theorem checkDeterministic_ne_epsilon {s : Fsm P α} (hs : s.Reachable) (id : StateId)
    (e : P.Event) : s.checkDeterministic ≠ some (some (.epsilonTransition id e)) :=
  scanStates_ne_epsilon hs.wf.nodup s.states

theorem epsilonDemo_never_epsilon :
    epsilonDemo.Reachable ∧
      ∀ id e, epsilonDemo.checkDeterministic ≠ some (some (.epsilonTransition id e)) :=
  have hs : epsilonDemo.Reachable := by
    unfold epsilonDemo
    exact .setStartState _ <| .setErrorState _ <| .addStopState _ <| .addTransition _ _ <|
      .addTransition _ _ <| .addState _ <| .addState _ .init
  ⟨hs, checkDeterministic_ne_epsilon hs⟩

/-- S4: `B` has its own row for `x`, and so has its parent `A`; the engine is
still deterministic, valid, and starts. -/
theorem epsilon_transition_accepted :
    epsilonDemo.findRow (sttKey Policy.u32.layout 2 1) = some ⟨1, 1⟩ ∧
    epsilonDemo.findRow (sttKey Policy.u32.layout 1 1) = some ⟨1, 2⟩ ∧
    epsilonDemo.stateAt 2 = some ⟨2, 1, true⟩ ∧
    epsilonDemo.deterministic = some true ∧ epsilonDemo.valid = some true ∧
    (epsilonDemo.start true).map (·.status) = some .running := by
  decide

/-! ## Unregistered destinations -/

/-- State `1` with a handler and one row, `(1, 1) → 2`, to a state that is never
registered; `1` is the start, error and stop state. -/
def danglingDemo : Fsm Policy.u32 Nat :=
  let s := (init.addState ⟨1, 0, true⟩).2
  let s := (s.addTransition 1 ⟨1, 2⟩).2
  let s := (s.addStopState 1).2
  (s.setErrorState 1).2.setStartState 1

/-- The row's destination is not registered, yet the engine is valid; once
started, the step that takes the row dereferences the null state that
`m_states[2]` inserts. -/
theorem dangling_destination_valid :
    danglingDemo.valid = some true ∧ danglingDemo.stt.map (·.2.next) = [2] ∧
    danglingDemo.contains 2 = false ∧
    (danglingDemo.run [.start true, .call (.raise 1 0), .step (.returns true) (.returns true)]).isNone := by
  decide

end LwiotFsm.Fsm
