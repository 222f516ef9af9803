import LwiotFsm.Validation
import LwiotFsm.Hierarchy

/-!
# Copy and move

`copy(other)` and `swap(a, b)` list the members they transfer by hand, and
both leave out `m_alphabet`. Everything `lookup` and `accept` read is
transferred, so a copy accepts exactly what the original accepts
(`copy_accept`). But `deterministic()` checks completeness over the alphabet,
and it is the destination's: a copy into an engine with the same alphabet
agrees with the original (`copy_deterministic`), while a copy- or
move-constructed engine has the empty alphabet of `FsmBase()` and passes
whatever it was built from (`copyOf_deterministic`, `copy_drops_alphabet`).
-/

namespace LwiotFsm.Fsm

variable {P : Policy} {α : Type}

/-! ## What `deterministic()` reads -/

theorem scanSymbols_congr {s s' : Fsm P α} (hstt : s'.stt = s.stt) (hst : s'.states = s.states)
    (st : State) : ∀ accepts es, s'.scanSymbols st accepts es = s.scanSymbols st accepts es
  | _, [] => rfl
  | accepts, e :: es => by
    simp only [scanSymbols, lookup, hst, lookupAux_congr hstt hst, scanSymbols_congr hstt hst st]

/-- `deterministic()` reads the table, the state map and the alphabet. -/
theorem checkDeterministic_congr {s s' : Fsm P α} (hstt : s'.stt = s.stt)
    (hst : s'.states = s.states) (halpha : s'.alphabet = s.alphabet) :
    s'.checkDeterministic = s.checkDeterministic := by
  have h : ∀ sts, s'.scanStates sts = s.scanStates sts := fun sts => by
    induction sts with
    | nil => rfl
    | cons st sts ih => simp only [scanStates, halpha, scanSymbols_congr hstt hst, ih]
  rw [checkDeterministic, checkDeterministic, hst, h]

/-! ## Copies -/

/-- One state with a handler, and the symbol `1` with no row for it; start,
error and stop state `1`. -/
def copyDemo : Fsm Policy.u32 Nat :=
  let s := ((init.addState ⟨1, 0, true⟩).2.addAlphabetSymbol 1).2
  ((s.addStopState 1).2.setErrorState 1).2.setStartState 1

/-- **A copy accepts what the original accepts.** -/
theorem copy_accept (s o : Fsm P α) (e : P.Event) : (s.copy o).accept e = o.accept e := by
  have h : (s.copy o).acceptFrom e = o.acceptFrom e :=
    funext fun n => funext (acceptFrom_congr (show (s.copy o).stt = o.stt from rfl) rfl e n)
  unfold accept
  rw [h]
  rfl

/-- **A copy into an engine with the same alphabet is deterministic when the
original is.** -/
theorem copy_deterministic {s o : Fsm P α} (h : s.alphabet = o.alphabet) :
    (s.copy o).deterministic = o.deterministic := by
  unfold deterministic
  rw [checkDeterministic_congr (show (s.copy o).stt = o.stt from rfl) rfl h]

theorem copyDemo_copy_deterministic :
    ((init : Fsm Policy.u32 Nat).addAlphabetSymbol 1).2.alphabet = copyDemo.alphabet ∧
      (((init : Fsm Policy.u32 Nat).addAlphabetSymbol 1).2.copy copyDemo).deterministic = copyDemo.deterministic :=
  have h : ((init : Fsm Policy.u32 Nat).addAlphabetSymbol 1).2.alphabet = copyDemo.alphabet := by decide
  ⟨h, copy_deterministic h⟩

theorem scanStates_of_alphabet_nil {s : Fsm P α} (h : s.alphabet = []) :
    ∀ sts : List State, s.scanStates sts = some none
  | [] => rfl
  | st :: sts => by simp [scanStates, h, scanSymbols, scanStates_of_alphabet_nil h sts]

/-- **A copy- or move-constructed engine is always deterministic**: it checks
the empty alphabet of a fresh engine. -/
theorem copyOf_deterministic (o : Fsm P α) :
    (copyOf o).deterministic = some true ∧ (moveOf o).1.deterministic = some true := by
  have h : (copyOf o).deterministic = some true := by
    rw [deterministic, checkDeterministic, scanStates_of_alphabet_nil rfl]
    rfl
  exact ⟨h, h⟩

/-- `copyDemo` is not valid, for the missing row; its copy and the engine moved
from it have an empty alphabet and are valid. -/
theorem copy_drops_alphabet :
    copyDemo.alphabet = [1] ∧ (copyOf copyDemo).alphabet = [] ∧ (moveOf copyDemo).1.alphabet = [] ∧
      copyDemo.deterministic = some false ∧ copyDemo.valid = some false ∧
      (copyOf copyDemo).deterministic = some true ∧ (copyOf copyDemo).valid = some true ∧
      (moveOf copyDemo).1.valid = some true := by
  decide

end LwiotFsm.Fsm
