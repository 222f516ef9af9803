import LwiotFsm.SttIndex
import Mathlib.Data.List.Sort

/-!
# The FSM engine

A shallow model of `detail_fsm::FsmBase<R(Args...), P, W>`: the fields its
member functions use, and each member function as a function of them.

* Containers are lists. `m_states` is the policy's ordered map, kept sorted by
  state id; `m_stt` is keyed by the packed `SttIndex` integer; `m_alphabet`
  iterates in insertion order; `m_events` is the deque, front first.
* The references `m_start_state`, `m_error_state` and `m_stop_states` hold the
  state objects they point to.
* The watchdog and the stop event are counted: the `reset()` and `signal()`
  calls they have received.
* A state handler belongs to the environment. Each invocation is a `Handler`:
  the `raise`/`transition` calls it makes and the value it returns, for the
  arguments it is passed. The engine's invocations are logged, as the
  collaborators' calls are: `invoked` lists the id of each state whose handler
  ran, with the arguments it was passed, oldest first.
* An operation is `none` where the C++ code has undefined behaviour: a
  dereferenced empty reference, `m_states.at` of a missing id, or a lookup
  that recurses without end.
-/

namespace LwiotFsm

/-- The template arguments of `FsmBase` that its behaviour depends on: the
layout of the policy's `FsmEvent` type, and whether the handler return type
`R` is `void` rather than `bool`. -/
structure Policy where
  layout : Layout
  voidReturn : Bool

/-- `FsmEvent`. -/
abbrev Policy.Event (P : Policy) := P.layout.Event

/-- `FsmStateId`, a `uint32_t`; a zero parent means "no parent". -/
abbrev StateId := UInt32

inductive FsmStatus where
  | stateUnchanged
  | stateChanged
  | fault
  | error
  | stopped
  | running
deriving DecidableEq, Repr

/-- `Transition<P, Args...>` without its guard, which the engine never calls. -/
structure Transition (P : Policy) where
  event : P.Event
  next : StateId
deriving DecidableEq

/-- `State<P, H, R, Args...>`: its id, its parent (`0` for none), and whether
its handler `m_action` is set. -/
structure State where
  id : StateId
  parent : StateId
  hasAction : Bool
deriving DecidableEq, Repr

/-- A call a state handler makes on the engine while it runs. -/
inductive Call (P : Policy) (α : Type) where
  | raise (event : P.Event) (args : α)
  | transition (event : P.Event) (args : α)

/-- One invocation of a state handler: for the arguments it is passed, the
calls it makes on the engine in order, and what a `bool` handler returns. -/
structure Handler (P : Policy) (α : Type) where
  calls : α → List (Call P α)
  result : α → Bool

/-- `uint32_t` events and `bool` handlers. -/
def Policy.u32 : Policy := ⟨Layout.u32, false⟩

/-- A handler that makes no call and returns `b`. -/
def Handler.returns {P : Policy} {α : Type} (b : Bool) : Handler P α := ⟨fun _ => [], fun _ => b⟩

/-- The state of an `FsmBase`; `α` is its `ArgumentWrapper` tuple. -/
structure Fsm (P : Policy) (α : Type) where
  stt : List (Nat × Transition P)
  states : List State
  stopStates : List State
  startState : Option State
  current : StateId
  errorState : Option State
  status : FsmStatus
  inTransition : Bool
  alphabet : List P.Event
  events : List (P.Event × α)
  watchdog : Nat
  stopEvent : Nat
  invoked : List (StateId × α)

/-- Why `deterministic()` returns `false`: the state and the symbol of the log
record it writes. -/
inductive Diagnostic (P : Policy) where
  | missingTransition (state : StateId) (event : P.Event)
  | epsilonTransition (state : StateId) (event : P.Event)

namespace Fsm

variable {P : Policy} {α : Type}

/-- `FsmBase(tmo)`: no states, no transitions, `Stopped`. -/
def init : Fsm P α where
  stt := []
  states := []
  stopStates := []
  startState := none
  current := 0
  errorState := none
  status := .stopped
  inTransition := false
  alphabet := []
  events := []
  watchdog := 0
  stopEvent := 0
  invoked := []

/-! ## Containers and collaborators -/

/-- `m_states.contains(id)` -/
def contains (s : Fsm P α) (id : StateId) : Bool := s.states.any (·.id == id)

/-- `m_states.at(id)`; `none` where `at` has no entry. -/
def stateAt (s : Fsm P α) (id : StateId) : Option State := s.states.find? (·.id == id)

/-- `m_states.emplace(id, state)` on an absent id. -/
def emplaceState (st : State) (s : Fsm P α) : Fsm P α :=
  { s with states := s.states.orderedInsert (fun a b => a.id ≤ b.id) st }

/-- `m_stt.find(key)` -/
def findRow (s : Fsm P α) (key : Nat) : Option (Transition P) :=
  (s.stt.find? (·.1 == key)).map Prod.snd

/-- `m_stt.emplace(key, transition)`: inserted only if the key is absent. -/
def emplaceRow (key : Nat) (t : Transition P) (s : Fsm P α) : Bool × Fsm P α :=
  if (s.findRow key).isSome then (false, s) else (true, { s with stt := s.stt ++ [(key, t)] })

/-- `addEvent(event, args, front)` -/
def addEvent (r : P.Event × α) (front : Bool) (s : Fsm P α) : Fsm P α :=
  if front then { s with events := r :: s.events } else { s with events := s.events ++ [r] }

/-- `m_watchdog.reset()` -/
def resetWatchdog (s : Fsm P α) : Fsm P α := { s with watchdog := s.watchdog + 1 }

/-- `m_stop_event.signal()` -/
def signalStop (s : Fsm P α) : Fsm P α := { s with stopEvent := s.stopEvent + 1 }

/-- `running()` -/
def running (s : Fsm P α) : Bool := s.status == .running

/-- `isStopState(state)` -/
def isStopState (s : Fsm P α) (id : StateId) : Bool := s.stopStates.any (·.id == id)

/-! ## Builders -/

/-- `addState(state)`: the id, and whether the state was added. -/
def addState (st : State) (s : Fsm P α) : (StateId × Bool) × Fsm P α :=
  if s.contains st.id then ((st.id, false), s) else ((st.id, true), s.emplaceState st)

/-- `addStates(states)`: registers the states in order, and returns `false` at
the first one whose id is already registered. -/
def addStates : List State → Fsm P α → Bool × Fsm P α
  | [], s => (true, s)
  | st :: sts, s => if s.contains st.id then (false, s) else addStates sts (s.emplaceState st)

/-- `setStartState(id)`: nothing happens for an unknown id. -/
def setStartState (id : StateId) (s : Fsm P α) : Fsm P α :=
  match s.stateAt id with
  | none => s
  | some st => { s with startState := some st }

def setErrorState (id : StateId) (s : Fsm P α) : Bool × Fsm P α :=
  match s.stateAt id with
  | none => (false, s)
  | some st => (true, { s with errorState := some st })

def addStopState (id : StateId) (s : Fsm P α) : Bool × Fsm P α :=
  match s.stateAt id with
  | none => (false, s)
  | some st => (true, { s with stopStates := s.stopStates ++ [st] })

/-- The first loop of `addStopStates(states)`: `false` at the first id that is
not registered. -/
def checkStopStates (s : Fsm P α) : List StateId → Bool
  | [] => true
  | id :: ids => if !s.contains id then false else s.checkStopStates ids

/-- The second loop of `addStopStates(states)`: `m_states.at(state)`, which has
no result for an unregistered id, and `push_back` of its state. -/
def appendStopStates : List StateId → Fsm P α → Option (Fsm P α)
  | [], s => some s
  | id :: ids, s =>
    (s.stateAt id).bind fun st => appendStopStates ids { s with stopStates := s.stopStates ++ [st] }

/-- `addStopStates(states)`: the first loop returns `false` before the second
runs. -/
def addStopStates (ids : List StateId) (s : Fsm P α) : Option (Bool × Fsm P α) :=
  if s.checkStopStates ids then (s.appendStopStates ids).map fun s' => (true, s')
  else some (false, s)

def addAlphabetSymbol (e : P.Event) (s : Fsm P α) : Bool × Fsm P α :=
  if s.alphabet.contains e then (false, s) else (true, { s with alphabet := s.alphabet ++ [e] })

def updateAlphabet (t : Transition P) (s : Fsm P α) : Fsm P α :=
  if s.alphabet.contains t.event then s else { s with alphabet := s.alphabet ++ [t.event] }

/-- `addTransition(state, TransitionType&&)`. Neither id is checked, and the
alphabet grows even when the row is refused. -/
def addTransition (id : StateId) (t : Transition P) (s : Fsm P α) : Bool × Fsm P α :=
  (s.updateAlphabet t).emplaceRow (sttKey P.layout id t.event) t

/-- `addTransition(state, args...)`, forwarding `(event, next)` to the
`Transition` constructor. -/
def addTransitionArgs (id : StateId) (e : P.Event) (next : StateId) (s : Fsm P α) :
    Bool × Fsm P α :=
  (s.updateAlphabet ⟨e, next⟩).emplaceRow (sttKeyArgs P.layout id e) ⟨e, next⟩

/-! ## Queries -/

/-- `lookup(state, event)`, its recursion bounded by `fuel`: `none` if the fuel
runs out or `m_states.at` has no entry for a parent; otherwise the transition
found, if any. -/
def lookupAux (s : Fsm P α) (e : P.Event) : Nat → State → Option (Option (Transition P))
  | 0, _ => none
  | fuel + 1, st =>
    match s.findRow (sttKey P.layout st.id e) with
    | some t => some (some t)
    | none => if st.parent == 0 then some none else (s.stateAt st.parent).bind (s.lookupAux e fuel)

/-- `lookup(state, event)`. A chain of distinct registered states is no longer
than `m_states`, so a lookup that exhausts this fuel is one whose parent chain
cycles, where the code recurses without end. -/
def lookup (s : Fsm P α) (st : State) (e : P.Event) : Option (Option (Transition P)) :=
  s.lookupAux e s.states.length st

/-- The `do … while` loop of `accept(event)`, bounded by `fuel` as `lookup` is. -/
def acceptFrom (s : Fsm P α) (e : P.Event) : Nat → State → Option Bool
  | 0, _ => none
  | fuel + 1, st =>
    if (s.findRow (sttKey P.layout st.id e)).isSome then some true
    else if st.parent == 0 then some false
    else (s.stateAt st.parent).bind (s.acceptFrom e fuel)

/-- `accept(event)`: `false` unless running, else the loop from the current
state. -/
def accept (s : Fsm P α) (e : P.Event) : Option Bool :=
  if s.running then (s.stateAt s.current).bind (s.acceptFrom e s.states.length) else some false

/-- The inner loop of `deterministic()` for one state: every alphabet symbol
must resolve unless the state has no handler, and inserting it into `accepts`
must not find it there. -/
def scanSymbols (s : Fsm P α) (st : State) :
    List P.Event → List P.Event → Option (Option (Diagnostic P))
  | _, [] => some none
  | accepts, e :: es => (s.lookup st e).bind fun r =>
    if r.isNone && st.hasAction then some (some (.missingTransition st.id e))
    else if accepts.contains e then some (some (.epsilonTransition st.id e))
    else s.scanSymbols st (e :: accepts) es

/-- The outer loop of `deterministic()`, over `m_states` in key order. -/
def scanStates (s : Fsm P α) : List State → Option (Option (Diagnostic P))
  | [] => some none
  | st :: sts => (s.scanSymbols st [] s.alphabet).bind fun d =>
    match d with
    | some d => some (some d)
    | none => s.scanStates sts

/-- `deterministic()`, with the record it logs when it fails. -/
def checkDeterministic (s : Fsm P α) : Option (Option (Diagnostic P)) := s.scanStates s.states

def deterministic (s : Fsm P α) : Option Bool := s.checkDeterministic.map Option.isNone

def valid (s : Fsm P α) : Option Bool :=
  if !(s.status == .running || s.status == .stopped) then some false
  else if s.states.length == 0 then some false
  else if s.startState.isNone || s.stopStates.length == 0 then some false
  else if s.errorState.isNone then some false
  else s.deterministic

/-! ## Operation -/

/-- `halt()` -/
def halt (s : Fsm P α) : Fsm P α := if s.running then { s with status := .stopped } else s

/-- `start(check)`: with `check`, an engine that is not `valid()` is left as it
is; otherwise `m_current` is the start state and the status `Running`. -/
def start (check : Bool) (s : Fsm P α) : Option (Fsm P α) :=
  match (if check then s.valid else some true) with
  | none => none
  | some false => some s
  | some true => s.startState.map fun st => { s with current := st.id, status := .running }

/-- `stop(false)`. `stop(true)` blocks on `m_stop_event` where this returns
`false`, and once signalled runs this check again. -/
def stop (s : Fsm P α) : Option (Bool × Fsm P α) :=
  if !s.running then some (true, s)
  else (s.stateAt s.current).bind fun cur => s.errorState.map fun err =>
    if cur.id == err.id || s.isStopState cur.id then (true, { s with status := .stopped })
    else (false, s)

/-- `raise(event, args...)`: appended at the back if accepted. -/
def raise (s : Fsm P α) (e : P.Event) (a : α) : Option (Bool × Fsm P α) :=
  (s.accept e).map fun ok => if ok then (true, s.addEvent (e, a) false) else (false, s)

/-- `transition(event, args...)`: pushed at the front if accepted and no
transition is flagged in flight. -/
def transition (s : Fsm P α) (e : P.Event) (a : α) : Option (Bool × Fsm P α) :=
  (s.accept e).map fun ok =>
    if !ok || s.inTransition then (false, s)
    else (true, { s.addEvent (e, a) true with inTransition := true })

def call (s : Fsm P α) : Call P α → Option (Bool × Fsm P α)
  | .raise e a => s.raise e a
  | .transition e a => s.transition e a

/-- The calls a handler makes, in order, on the engine it runs in. -/
def applyCalls (s : Fsm P α) : List (Call P α) → Option (Fsm P α)
  | [] => some s
  | c :: cs => (s.call c).bind fun r => r.2.applyCalls cs

/-- `state->action(args...)`: the invocation is logged, the handler makes its
calls; a `bool` handler's value is what it returns, a `void` handler reports
`true`. -/
def action (s : Fsm P α) (st : State) (h : Handler P α) (a : α) : Option (Bool × Fsm P α) :=
  ({ s with invoked := s.invoked ++ [(st.id, a)] }.applyCalls (h.calls a)).map
    fun s' => (P.voidReturn || h.result a, s')

/-- Modelled from the spec: `state->action(args...)` on a state that may have no
handler. The step checks `hasAction()` first and takes `false`; `toErrorState`
calls it unchecked, through an empty `lwiot::Function`, whose source is
missing, and the spec has a missing handler "report failure (`false`)". -/
def invoke (s : Fsm P α) (st : State) (h : Handler P α) (a : α) : Option (Bool × Fsm P α) :=
  if st.hasAction then s.action st h a else some (false, s)

/-- `toErrorState(args...)`: the current state and the status move to the error
state, whose handler is then invoked with the arguments; its value is ignored. -/
def toErrorState (s : Fsm P α) (h : Handler P α) (a : α) : Option (Fsm P α) :=
  s.errorState.bind fun es =>
    ({ s with current := es.id, status := .error }.invoke es h a).map Prod.snd

/-- Steps 5 and 6 of a step: `lookup(m_states.at(m_current), event)`, and the
`transition->next()` that dereferences its result. -/
def resolve (s : Fsm P α) (e : P.Event) : Option (Transition P) :=
  (s.stateAt s.current).bind fun cur => (s.lookup cur e).bind id

/-- Steps 7 to 10, with `m_current` already `next`: `m_states[next]`, then its
handler; on failure the error state (`Fault`), else `StateChanged`. The stop
event is pulsed on an error or a stop state. -/
def settle (s : Fsm P α) (next : StateId) (a : α) (dest err : Handler P α) :
    Option (FsmStatus × Fsm P α) :=
  (s.stateAt next).bind fun st =>
  (s.invoke st dest a).bind fun r =>
  if r.1 then some (.stateChanged, if r.2.isStopState next then r.2.signalStop else r.2)
  else (r.2.toErrorState err a).map fun s' => (.fault, s'.signalStop)

/-- `transition(event, args, IndexSequence)`, which executes a dequeued record. -/
def stepWith (s : Fsm P α) (e : P.Event) (a : α) (dest err : Handler P α) :
    Option (FsmStatus × Fsm P α) :=
  if s.resetWatchdog.running then
    (s.resetWatchdog.resolve e).bind fun t =>
      { s.resetWatchdog with current := t.next }.settle t.next a dest err
  else some (s.status, s.resetWatchdog)

/-- `transition()`, the step a driver loop calls: the front record is popped
and executed, then `m_in_transition` is cleared. -/
def step (s : Fsm P α) (dest err : Handler P α) : Option (FsmStatus × Fsm P α) :=
  match s.events with
  | [] => some (.stateUnchanged, s)
  | (e, a) :: rest => ({ s with events := rest }.stepWith e a dest err).map
    fun (r : FsmStatus × Fsm P α) => (r.1, { r.2 with inTransition := false })

/-! ## Copy and move -/

/-- `copy(other)`: the fields the member function lists. The alphabet, the
watchdog and the stop event stay this engine's. -/
def copy (s other : Fsm P α) : Fsm P α :=
  { s with
    stt := other.stt, events := other.events, states := other.states,
    stopStates := other.stopStates, startState := other.startState, current := other.current,
    errorState := other.errorState, status := other.status, inTransition := other.inTransition }

/-- `swap(a, b)`, which exchanges the fields that `copy` transfers. -/
def swap (a b : Fsm P α) : Fsm P α × Fsm P α := (a.copy b, b.copy a)

/-- `FsmBase(const FsmBase&)`: a fresh engine, then `copy(other)`. -/
def copyOf (other : Fsm P α) : Fsm P α := init.copy other

/-- `FsmBase(FsmBase&&)`: a fresh engine swapped with `other`; the new engine,
and what is left in `other`. -/
def moveOf (other : Fsm P α) : Fsm P α × Fsm P α := init.swap other

end Fsm

end LwiotFsm
