import LwiotFsm.Execution
import LwiotFsm.Ledger

/-!
# The event queue

`raise` appends a record to `m_events`, `transition(event, args...)` pushes
one at the front, and the step pops the front one; a step's destination
handler may push more while it runs, and the error state's handler runs with
the status `Error`, where every call is refused. `runTrace` lists these queue
operations for a run, one function for each function of the engine that
reaches the queue, and `run_events` shows that the queue after the run is the
one they build. With the ledger of `LwiotFsm.Ledger` this gives the queue
discipline of every run (`queue_discipline`).

The flag `m_in_transition`, which is to keep a second handler transition out
while one is queued, is cleared at the end of the step that queued it, not
when its record is popped (`second_transition_accepted`).
-/

namespace LwiotFsm

variable {P : Policy} {α : Type}

/-- The queue operation an accepted call performs. -/
def Call.queueOp : Call P α → QueueOp (P.Event × α)
  | .raise e a => .pushBack (e, a)
  | .transition e a => .pushFront (e, a)

namespace Fsm

/-! ## The queue operations of each function -/

/-- The queue operations of `applyCalls`: one for each accepted call. -/
def callsTrace (s : Fsm P α) : List (Call P α) → List (QueueOp (P.Event × α))
  | [] => []
  | c :: cs =>
    match s.call c with
    | some (true, s₁) => c.queueOp :: s₁.callsTrace cs
    | some (false, s₁) => s₁.callsTrace cs
    | none => []

/-- The queue operations of `invoke`: the handler's calls, made once its
invocation is logged. -/
def invokeTrace (s : Fsm P α) (st : State) (h : Handler P α) (a : α) :
    List (QueueOp (P.Event × α)) :=
  if st.hasAction then { s with invoked := s.invoked ++ [(st.id, a)] }.callsTrace (h.calls a) else []

/-- The queue operations of `settle`: the destination handler's. -/
def settleTrace (s : Fsm P α) (next : StateId) (a : α) (dest : Handler P α) :
    List (QueueOp (P.Event × α)) :=
  match s.stateAt next with
  | some st => s.invokeTrace st dest a
  | none => []

def stepWithTrace (s : Fsm P α) (e : P.Event) (a : α) (dest : Handler P α) :
    List (QueueOp (P.Event × α)) :=
  if s.resetWatchdog.running then
    match s.resetWatchdog.resolve e with
    | some t => { s.resetWatchdog with current := t.next }.settleTrace t.next a dest
    | none => []
  else []

/-- The queue operations of a step: the pop, then what executing the record
pushes. -/
def stepTrace (s : Fsm P α) (dest : Handler P α) : List (QueueOp (P.Event × α)) :=
  match s.events with
  | [] => []
  | (e, a) :: rest => .popFront :: { s with events := rest }.stepWithTrace e a dest

def opTrace (s : Fsm P α) : Op P α → List (QueueOp (P.Event × α))
  | .call c => s.callsTrace [c]
  | .step dest _ => s.stepTrace dest
  | .halt | .stop | .start _ => []

def runTrace (s : Fsm P α) : List (Op P α) → List (QueueOp (P.Event × α))
  | [] => []
  | op :: ops => s.opTrace op ++ ((s.apply op).map fun s' => s'.runTrace ops).getD []

/-! ## Each function performs its queue operations -/

theorem push_events (s : Fsm P α) (c : Call P α) : (s.push c).events = c.queueOp.exec s.events := by
  cases c <;> rfl

theorem applyCalls_events {s s' : Fsm P α} {cs : List (Call P α)} (h : s.applyCalls cs = some s') :
    s'.events = QueueOp.replay (s.callsTrace cs) s.events := by
  induction cs generalizing s with
  | nil => cases h; rfl
  | cons c cs ih =>
    obtain ⟨⟨b, s₁⟩, hc, hr⟩ := Option.bind_eq_some.mp h
    cases b
    · obtain rfl : s₁ = s := call_eq hc
      simp only [callsTrace, hc]
      exact ih hr
    · obtain rfl : s₁ = s.push c := call_eq hc
      simp only [callsTrace, hc, QueueOp.replay_cons, ← push_events]
      exact ih hr

theorem call_of_not_running {s : Fsm P α} (h : s.running = false) (c : Call P α) :
    s.call c = some (false, s) := by
  cases c <;> simp [call, raise, transition, accept, h]

theorem callsTrace_of_not_running {s : Fsm P α} (h : s.running = false) :
    ∀ cs : List (Call P α), s.callsTrace cs = []
  | [] => rfl
  | c :: cs => by simp only [callsTrace, call_of_not_running h, callsTrace_of_not_running h cs]

theorem invoke_events {s s' : Fsm P α} {st : State} {h : Handler P α} {a : α} {b : Bool}
    (hi : s.invoke st h a = some (b, s')) :
    s'.events = QueueOp.replay (s.invokeTrace st h a) s.events := by
  unfold invoke action at hi
  unfold invokeTrace
  split at hi
  · obtain ⟨s₁, hs₁, hb⟩ := Option.map_eq_some'.mp hi
    cases hb
    rw [if_pos ‹_›]
    exact applyCalls_events hs₁
  · cases hi
    rw [if_neg ‹_›]
    rfl

/-- The error state's handler runs in `Error`, and its calls are refused. -/
theorem toErrorState_events {s s' : Fsm P α} {h : Handler P α} {a : α}
    (he : s.toErrorState h a = some s') : s'.events = s.events := by
  obtain ⟨es, -, hes⟩ := Option.bind_eq_some.mp he
  obtain ⟨⟨b, s₁⟩, hr, rfl⟩ := Option.map_eq_some'.mp hes
  have hi := invoke_events hr
  unfold invokeTrace at hi
  split at hi <;> simpa [callsTrace_of_not_running, running] using hi

theorem settle_events {s s' : Fsm P α} {next : StateId} {a : α} {dest err : Handler P α}
    {rv : FsmStatus} (h : s.settle next a dest err = some (rv, s')) :
    s'.events = QueueOp.replay (s.settleTrace next a dest) s.events := by
  obtain ⟨st, ok, s₁, hst, hinv, hr⟩ := settle_cases h
  rw [settleTrace, hst, ← invoke_events hinv]
  rcases hr with ⟨-, -, rfl⟩ | ⟨-, -, s₂, he, rfl⟩
  · split <;> rfl
  · exact (toErrorState_events he : s₂.events = s₁.events)

theorem step_events {s s' : Fsm P α} {dest err : Handler P α} {rv : FsmStatus}
    (h : s.step dest err = some (rv, s')) :
    s'.events = QueueOp.replay (s.stepTrace dest) s.events := by
  rcases step_cases h with ⟨hq, -, rfl⟩ | ⟨e, a, rest, hq, ⟨hrun, -, rfl⟩ | ⟨hrun, t, s₁, ht, hset, rfl⟩⟩
  · simp only [stepTrace, hq, QueueOp.replay_nil]
  · simp [stepTrace, stepWithTrace, hq, running, resetWatchdog, hrun, QueueOp.exec]
  · have hr : ({ s with events := rest } : Fsm P α).resetWatchdog.running = true := by
      simp [running, resetWatchdog, hrun]
    simp only [stepTrace, stepWithTrace, hq, hr, if_true, QueueOp.replay_cons]
    rw [show ({ s with events := rest } : Fsm P α).resetWatchdog.resolve e = some t from ht]
    exact settle_events hset

theorem apply_events {s s' : Fsm P α} {op : Op P α} (h : s.apply op = some s') :
    s'.events = QueueOp.replay (s.opTrace op) s.events := by
  cases op with
  | call c =>
    obtain ⟨⟨b, s₁⟩, hc, rfl⟩ := Option.map_eq_some'.mp h
    exact applyCalls_events (show s.applyCalls [c] = some s₁ by simp [applyCalls, hc])
  | step dest err =>
    obtain ⟨⟨rv, s₁⟩, hs, rfl⟩ := Option.map_eq_some'.mp h
    exact step_events hs
  | halt =>
    cases h
    exact (halt_controls s).events
  | stop =>
    obtain ⟨⟨b, s₁⟩, hs, rfl⟩ := Option.map_eq_some'.mp h
    exact (stop_controls hs).events
  | start check => exact (start_controls h).events

/-- A run's queue is the one its queue operations build. -/
theorem run_events {s s' : Fsm P α} {ρ : List (Op P α)} (h : s.run ρ = some s') :
    s'.events = QueueOp.replay (s.runTrace ρ) s.events := by
  induction ρ generalizing s with
  | nil => cases h; rfl
  | cons op ρ ih =>
    obtain ⟨s₁, h₁, h₂⟩ := Option.bind_eq_some.mp h
    simp only [runTrace, h₁, Option.map_some', Option.getD_some, QueueOp.replay_append,
      ← apply_events h₁]
    exact ih h₂

/-! ## Queue discipline -/

/-- **Queue discipline.** Tag the records of any run's queue operations in a
ledger opened on the queue the run starts from. Then the queue the run leaves
holds the ledger's queued records, and the ledger is sound: every record pushed
is popped at most once and is otherwise still queued, nothing is popped that
was not pushed, records raised are popped in the order they were raised, and a
record pushed by `transition` is popped before every record queued when it was
pushed. -/
theorem queue_discipline {s s' : Fsm P α} {ρ : List (Op P α)} (h : s.run ρ = some s') :
    s'.events = ((Ledger.ofQueue s.events).replay (s.runTrace ρ)).records ∧
      ((Ledger.ofQueue s.events).replay (s.runTrace ρ)).Sound := by
  obtain ⟨hsound, hrec⟩ := Ledger.replay_sound (Ledger.ofQueue_sound s.events) (s.runTrace ρ)
  rw [Ledger.records_ofQueue] at hrec
  exact ⟨(run_events h).trans hrec.symm, hsound⟩

/-- Scenario S5 of the spec: states `1` and `2` with handlers, and rows
`(1, 1) → 2` and `(2, 1) → 1` for the one event `1`; start, error and stop
state `1`. Records are told apart by their arguments. -/
def handoffDemo : Fsm Policy.u32 Nat :=
  let s := ((init.addState ⟨1, 0, true⟩).2.addState ⟨2, 0, true⟩).2
  let s := ((s.addTransition 1 ⟨1, 2⟩).2.addTransition 2 ⟨1, 1⟩).2
  ((s.addStopState 1).2.setErrorState 1).2.setStartState 1

/-- A handler that calls `transition(1, 200)` and succeeds. -/
def handOff : Handler Policy.u32 Nat := ⟨fun _ => [.transition 1 200], fun _ => true⟩

/-- `raise(1, 0)` and `raise(1, 100)`; the step on `(1, 0)` enters `2`, whose
handler calls `transition(1, 200)`; two more steps. -/
def handoffRun : List (Op Policy.u32 Nat) :=
  [.start true, .call (.raise 1 0), .call (.raise 1 100), .step handOff (.returns true),
    .step (.returns true) (.returns true), .step (.returns true) (.returns true)]

def handedOff : Fsm Policy.u32 Nat := (handoffDemo.run handoffRun).getD init

theorem handoff_discipline :
    handoffDemo.run handoffRun = some handedOff ∧
      handedOff.events =
        ((Ledger.ofQueue handoffDemo.events).replay (handoffDemo.runTrace handoffRun)).records ∧
      ((Ledger.ofQueue handoffDemo.events).replay (handoffDemo.runTrace handoffRun)).Sound :=
  have h : handoffDemo.run handoffRun = some handedOff := rfl
  ⟨h, queue_discipline h⟩

/-- The handler's transition `(1, 200)` is popped before `(1, 100)`, raised
earlier. -/
example :
    ((Ledger.ofQueue handoffDemo.events).replay (handoffDemo.runTrace handoffRun)).served =
      [0, 2, 1] := by
  decide

/-! ## The in-transition flag -/

/-- After the step whose handler queued `(1, 200)` by `transition`, the flag is
clear with the record still queued, and a second `transition(1, 300)` is
accepted: two handler transitions are queued. -/
theorem second_transition_accepted :
    (handoffDemo.run [.start true, .call (.raise 1 0), .step handOff (.returns true)]).map
        (fun s => (s.events, s.inTransition)) = some ([(1, 200)], false) ∧
      ((handoffDemo.run [.start true, .call (.raise 1 0), .step handOff (.returns true)]).bind
          fun s => s.transition 1 300).map (fun r => (r.1, r.2.events)) =
        some (true, [(1, 300), (1, 200)]) := by
  decide

end Fsm

end LwiotFsm
