import LwiotFsm.Engine
import Mathlib.Data.List.Perm.Subperm

/-!
# Parent chains

`lookup(state, event)` recurses on a state's parent and `accept(event)` loops
up the same chain; both stop at a state without a parent, and neither checks
that the chain ends. On an engine whose registered states have acyclic chains
of registered states (`Acyclic`), a chain holds no more states than `m_states`,
so both end within their fuel, and both compute nearest-ancestor resolution:
the row of the first state on the chain that has one for the event
(`lookup_nearest_ancestor`). On every engine `accept` is `lookup` from the
current state, read as found or not (`accept_eq_lookup`).
-/

namespace LwiotFsm.Fsm

variable {P : Policy} {α : Type}

/-! ## What the queries read -/

/-- `lookup` reads only the table and the state map. -/
theorem lookupAux_congr {s s' : Fsm P α} (hstt : s'.stt = s.stt) (hst : s'.states = s.states)
    (e : P.Event) : ∀ n st, s'.lookupAux e n st = s.lookupAux e n st
  | 0, _ => rfl
  | n + 1, st => by
    have ih : s'.lookupAux e n = s.lookupAux e n := funext (lookupAux_congr hstt hst e n)
    simp only [lookupAux, findRow, stateAt, hstt, hst, ih]

theorem lookup_congr {s s' : Fsm P α} (hstt : s'.stt = s.stt) (hst : s'.states = s.states)
    (st : State) (e : P.Event) : s'.lookup st e = s.lookup st e := by
  rw [lookup, lookup, hst, lookupAux_congr hstt hst]

/-- So does `accept`'s loop. -/
theorem acceptFrom_congr {s s' : Fsm P α} (hstt : s'.stt = s.stt) (hst : s'.states = s.states)
    (e : P.Event) : ∀ n st, s'.acceptFrom e n st = s.acceptFrom e n st
  | 0, _ => rfl
  | n + 1, st => by
    have ih : s'.acceptFrom e n = s.acceptFrom e n := funext (acceptFrom_congr hstt hst e n)
    simp only [acceptFrom, findRow, stateAt, hstt, hst, ih]

/-- `accept` reads the table, the state map, the status and the current state. -/
theorem accept_congr {s s' : Fsm P α} (hstt : s'.stt = s.stt) (hst : s'.states = s.states)
    (hstatus : s'.status = s.status) (hcur : s'.current = s.current) (e : P.Event) :
    s'.accept e = s.accept e := by
  simp only [accept, running, stateAt, hst, hstatus, hcur, acceptFrom_congr hstt hst]

/-- `accept`'s loop is `lookup`'s recursion, read as found or not. -/
theorem acceptFrom_eq (s : Fsm P α) (e : P.Event) :
    ∀ n st, s.acceptFrom e n st = (s.lookupAux e n st).map Option.isSome
  | 0, _ => rfl
  | n + 1, st => by
    cases hf : s.findRow (sttKey P.layout st.id e) <;> by_cases h0 : st.parent = 0 <;>
      cases hp : s.stateAt st.parent <;>
      simp [acceptFrom, lookupAux, hf, h0, hp, acceptFrom_eq s e n]

/-- **`accept` is `lookup` from the current state**, on every engine. -/
theorem accept_eq_lookup (s : Fsm P α) (e : P.Event) :
    s.accept e =
      if s.running then (s.stateAt s.current).bind fun cur => (s.lookup cur e).map Option.isSome
      else some false := by
  simp only [accept, lookup, acceptFrom_eq]

/-! ## Chains -/

/-- `ParentChain s st c`: `c` is the chain `st, parent(st), …` of `st`, which
ends at a state without a parent; each parent on it is found in `m_states`. -/
inductive ParentChain (s : Fsm P α) : State → List State → Prop
  | root {st : State} : st.parent = 0 → ParentChain s st [st]
  | parent {st p : State} {c : List State} :
      st.parent ≠ 0 → s.stateAt st.parent = some p → ParentChain s p c →
        ParentChain s st (st :: c)

/-- Every registered state's parent chain ends, through registered states,
without visiting a state twice. -/
def Acyclic (s : Fsm P α) : Prop := ∀ st ∈ s.states, ∃ c, s.ParentChain st c ∧ c.Nodup

/-- Nearest-ancestor resolution, as the spec states it: the row stored for `e`
under the first state on the chain that has one. -/
def nearestRow (s : Fsm P α) (e : P.Event) (c : List State) : Option (Transition P) :=
  c.findSome? fun a => s.findRow (sttKey P.layout a.id e)

theorem stateAt_mem {s : Fsm P α} {id : StateId} {st : State} (h : s.stateAt id = some st) :
    st ∈ s.states :=
  List.mem_of_find?_eq_some h

theorem stateAt_id {s : Fsm P α} {id : StateId} {st : State} (h : s.stateAt id = some st) :
    st.id = id := by
  simpa using List.find?_some h

theorem ParentChain.subset {s : Fsm P α} {st : State} {c : List State} (hc : s.ParentChain st c)
    (hst : st ∈ s.states) : c ⊆ s.states := by
  induction hc with
  | root _ => simpa using hst
  | parent _ hp _ ih => exact List.cons_subset.mpr ⟨hst, ih (stateAt_mem hp)⟩

/-- A chain from a registered state ends at a registered state without a parent. -/
theorem ParentChain.exists_root {s : Fsm P α} {st : State} {c : List State}
    (hc : s.ParentChain st c) (hst : st ∈ s.states) : ∃ r ∈ s.states, r.parent = 0 := by
  induction hc with
  | root h0 => exact ⟨_, hst, h0⟩
  | parent _ hp _ ih => exact ih (stateAt_mem hp)

/-- An acyclic chain of registered states is no longer than `m_states`: the
fuel `lookup` and `accept` get. -/
theorem ParentChain.length_le {s : Fsm P α} {st : State} {c : List State} (hc : s.ParentChain st c)
    (hnd : c.Nodup) (hst : st ∈ s.states) : c.length ≤ s.states.length :=
  (hnd.subperm (hc.subset hst)).length_le

/-- With fuel for the whole chain, `lookup`'s recursion returns the nearest row. -/
theorem lookupAux_chain {s : Fsm P α} (e : P.Event) {st : State} {c : List State}
    (hc : s.ParentChain st c) :
    ∀ {n}, c.length ≤ n → s.lookupAux e n st = some (s.nearestRow e c) := by
  induction hc with
  | @root st h0 =>
    rintro (_ | m) hn
    · simp at hn
    · cases hf : s.findRow (sttKey P.layout st.id e) <;> simp [lookupAux, nearestRow, hf, h0]
  | @parent st p c hne hp _ ih =>
    rintro (_ | m) hn
    · simp at hn
    · cases hf : s.findRow (sttKey P.layout st.id e) <;>
        simp [lookupAux, nearestRow, hf, hne, hp, ih (Nat.le_of_succ_le_succ hn)]

theorem ParentChain.congr {s s' : Fsm P α} (h : s'.states = s.states) {st : State} {c : List State}
    (hc : s.ParentChain st c) : s'.ParentChain st c := by
  induction hc with
  | root h0 => exact .root h0
  | parent hne hp _ ih => exact .parent hne (by rwa [stateAt, h]) ih

/-- Acyclicity is a property of the state map alone. -/
theorem Acyclic.congr {s s' : Fsm P α} (h : s'.states = s.states) (hs : s.Acyclic) : s'.Acyclic :=
  fun st hst =>
    let ⟨c, hc, hnd⟩ := hs st (h ▸ hst)
    ⟨c, hc.congr h, hnd⟩

/-- On an acyclic engine, `lookup` from a registered state returns the nearest row. -/
theorem Acyclic.lookup_eq {s : Fsm P α} (hs : s.Acyclic) {st : State} (hst : st ∈ s.states)
    (e : P.Event) : ∃ c, s.ParentChain st c ∧ s.lookup st e = some (s.nearestRow e c) :=
  let ⟨c, hc, hnd⟩ := hs st hst
  ⟨c, hc, lookupAux_chain e hc (hc.length_le hnd hst)⟩

/-- So `accept` returns, once the current state is registered. -/
theorem Acyclic.accept_isSome {s : Fsm P α} (hs : s.Acyclic) {cur : State}
    (hcur : s.stateAt s.current = some cur) (e : P.Event) : (s.accept e).isSome := by
  obtain ⟨c, -, hl⟩ := hs.lookup_eq (stateAt_mem hcur) e
  rw [accept_eq_lookup]
  split <;> simp [hcur, hl]

/-! ## Nearest-ancestor resolution -/

/-- **`lookup` and `accept` compute nearest-ancestor resolution.** On an engine
whose registered states have acyclic chains of registered states, `lookup` from
a registered state ends: it finds the row of the first state on the chain that
has one for the event, and reports not-found exactly when no state on the chain
has one. And once the current state of a running engine is registered, `accept`
ends too, and returns `true` exactly when the engine runs and `lookup` from the
current state finds a row. -/
theorem lookup_nearest_ancestor {s : Fsm P α} (hs : s.Acyclic) :
    (∀ st ∈ s.states, ∀ e, ∃ c, s.ParentChain st c ∧
      s.lookup st e = some (s.nearestRow e c) ∧
      (∀ t, s.lookup st e = some (some t) ↔ ∃ pre a post, c = pre ++ a :: post ∧
        s.findRow (sttKey P.layout a.id e) = some t ∧
        ∀ b ∈ pre, s.findRow (sttKey P.layout b.id e) = none) ∧
      (s.lookup st e = some none ↔ ∀ a ∈ c, s.findRow (sttKey P.layout a.id e) = none)) ∧
    ∀ e, (s.status = .running → ∃ cur, s.stateAt s.current = some cur) →
      (s.accept e).isSome ∧
      (s.accept e = some true ↔ s.status = .running ∧
        ∃ cur t, s.stateAt s.current = some cur ∧ s.lookup cur e = some (some t)) := by
  refine ⟨fun st hst e => ?_, fun e hreg => ⟨?_, ?_⟩⟩
  · obtain ⟨c, hc, hl⟩ := hs.lookup_eq hst e
    refine ⟨c, hc, hl, fun t => ?_, ?_⟩
    · rw [hl, Option.some_inj, nearestRow, List.findSome?_eq_some_iff]
    · rw [hl, Option.some_inj, nearestRow, List.findSome?_eq_none_iff]
  · by_cases hr : s.status = .running
    · obtain ⟨cur, hcur⟩ := hreg hr
      exact hs.accept_isSome hcur e
    · simp [accept, running, hr]
  · rw [accept_eq_lookup]
    by_cases hr : s.status = .running
    · cases hcur : s.stateAt s.current with
      | none => simp [running, hr, hcur]
      | some cur => rcases hl : s.lookup cur e with _ | _ | t <;> simp [running, hr, hcur, hl]
    · simp [running, hr]

/-- Scenario S3 of the spec, started: `Parent = 10`, and `Child = 11` with
parent `Parent`, both with handlers; the one row `(Parent, tock) → Child` for
`tock = 1`; start `Child`, error and stop state `Parent`. -/
def hierarchyDemo : Fsm Policy.u32 Nat :=
  let s := ((init.addState ⟨10, 0, true⟩).2.addState ⟨11, 10, true⟩).2
  let s := ((s.addTransition 10 ⟨1, 11⟩).2.addStopState 10).2
  (((s.setErrorState 10).2.setStartState 11).start true).getD init

theorem hierarchyDemo_acyclic : hierarchyDemo.Acyclic := by
  intro st hst
  have hsts : hierarchyDemo.states = [⟨10, 0, true⟩, ⟨11, 10, true⟩] := by decide
  rw [hsts, List.mem_cons, List.mem_singleton] at hst
  rcases hst with rfl | rfl
  · exact ⟨_, .root rfl, by decide⟩
  · have hp : hierarchyDemo.stateAt 10 = some ⟨10, 0, true⟩ := by decide
    exact ⟨_, .parent (by decide) hp (.root rfl), by decide⟩

theorem hierarchyDemo_nearest_ancestor :
    hierarchyDemo.Acyclic ∧
      (∀ st ∈ hierarchyDemo.states, ∀ e, ∃ c, hierarchyDemo.ParentChain st c ∧
        hierarchyDemo.lookup st e = some (hierarchyDemo.nearestRow e c) ∧
        (∀ t, hierarchyDemo.lookup st e = some (some t) ↔
          ∃ pre a post, c = pre ++ a :: post ∧
          hierarchyDemo.findRow (sttKey Policy.u32.layout a.id e) = some t ∧
          ∀ b ∈ pre, hierarchyDemo.findRow (sttKey Policy.u32.layout b.id e) = none) ∧
        (hierarchyDemo.lookup st e = some none ↔
          ∀ a ∈ c, hierarchyDemo.findRow (sttKey Policy.u32.layout a.id e) = none)) ∧
      ∀ e, (hierarchyDemo.status = .running →
          ∃ cur, hierarchyDemo.stateAt hierarchyDemo.current = some cur) →
        (hierarchyDemo.accept e).isSome ∧
        (hierarchyDemo.accept e = some true ↔ hierarchyDemo.status = .running ∧
          ∃ cur t, hierarchyDemo.stateAt hierarchyDemo.current = some cur ∧
            hierarchyDemo.lookup cur e = some (some t)) :=
  ⟨hierarchyDemo_acyclic, lookup_nearest_ancestor hierarchyDemo_acyclic⟩

/-- In S3, `Child` accepts `tock` through its parent's row. -/
example : hierarchyDemo.current = 11 ∧ hierarchyDemo.accept 1 = some true := by
  decide

end LwiotFsm.Fsm
