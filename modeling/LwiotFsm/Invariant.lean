import LwiotFsm.Step
import LwiotFsm.Builders

/-!
# What every reachable engine keeps

`m_states` is the policy's ordered map and `m_stt` a map keyed by the packed
index; the model lists them. On every engine the API produces, the lists are
maps: one state per id, in key order, and one row per key. The references the
engine holds point into the state map: the start, error and stop states are
registered states, and the current state of an engine that is running or in
`Error` is one of them (`Reachable.consistent`). So `m_states.at(m_current)`
never misses on such an engine, and `stateAt` finds the one state of an id.
-/

namespace LwiotFsm

instance : IsTotal State (fun a b => a.id ≤ b.id) :=
  ⟨fun a b => (Nat.le_total a.id.toNat b.id.toNat).imp UInt32.le_def.mpr UInt32.le_def.mpr⟩

instance : IsTrans State (fun a b => a.id ≤ b.id) :=
  ⟨fun _ _ _ h₁ h₂ => UInt32.le_def.mpr (Nat.le_trans (UInt32.le_def.mp h₁) (UInt32.le_def.mp h₂))⟩

namespace Fsm

variable {P : Policy} {α : Type}

/-- The invariant of reachable engines (see the module doc). -/
structure Consistent (s : Fsm P α) : Prop where
  sorted : s.states.Sorted (fun a b => a.id ≤ b.id)
  ids : (s.states.map State.id).Nodup
  keys : (s.stt.map Prod.fst).Nodup
  start : ∀ st, s.startState = some st → st ∈ s.states
  error : ∀ es, s.errorState = some es → es ∈ s.states
  stop : ∀ st ∈ s.stopStates, st ∈ s.states
  current : s.status ≠ .stopped → ∃ st ∈ s.states, st.id = s.current

/-! ## The maps -/

/-- With one state per id, `stateAt` finds exactly the state of an id. -/
theorem Consistent.stateAt_eq {s : Fsm P α} (h : s.Consistent) {st : State} (hst : st ∈ s.states) :
    s.stateAt st.id = some st := by
  obtain ⟨x, hx⟩ : ∃ x, s.stateAt st.id = some x :=
    Option.isSome_iff_exists.mp (List.find?_isSome.mpr ⟨st, hst, by simp⟩)
  rw [hx, List.inj_on_of_nodup_map h.ids (stateAt_mem hx) hst (stateAt_id hx)]

theorem Consistent.stateAt_current {s : Fsm P α} (h : s.Consistent) (hs : s.status ≠ .stopped) :
    ∃ cur, s.stateAt s.current = some cur := by
  obtain ⟨st, hst, hid⟩ := h.current hs
  exact ⟨st, hid ▸ h.stateAt_eq hst⟩

theorem mem_emplaceState {s : Fsm P α} {st x : State} :
    x ∈ (s.emplaceState st).states ↔ x = st ∨ x ∈ s.states :=
  List.mem_orderedInsert _

theorem Consistent.emplaceState {s : Fsm P α} (h : s.Consistent) {st : State}
    (hf : s.contains st.id = false) : (s.emplaceState st).Consistent := by
  have hnot : st.id ∉ s.states.map State.id := fun hm => by
    obtain ⟨x, hx, hid⟩ := List.mem_map.mp hm
    simpa [hid] using List.any_eq_false.mp hf x hx
  refine ⟨h.sorted.orderedInsert st _, ?_, h.keys, fun x hx => mem_emplaceState.mpr (.inr (h.start x hx)),
    fun x hx => mem_emplaceState.mpr (.inr (h.error x hx)),
    fun x hx => mem_emplaceState.mpr (.inr (h.stop x hx)), fun hs => ?_⟩
  · exact (((List.perm_orderedInsert _ st s.states).map State.id).nodup_iff).mpr
      (List.nodup_cons.mpr ⟨hnot, h.ids⟩)
  · obtain ⟨x, hx, hid⟩ := h.current hs
    exact ⟨x, mem_emplaceState.mpr (.inr hx), hid⟩

/-- `emplace` on `m_stt` inserts only under an absent key. -/
theorem Consistent.emplaceRow {s : Fsm P α} (h : s.Consistent) (k : Nat) (t : Transition P) :
    (s.emplaceRow k t).2.Consistent := by
  unfold Fsm.emplaceRow
  split
  · exact h
  · next hk =>
    refine ⟨h.sorted, h.ids, ?_, h.start, h.error, h.stop, h.current⟩
    have : k ∉ s.stt.map Prod.fst := by simpa [findRow_isSome] using hk
    simpa [List.nodup_append, this] using h.keys

/-! ## Every builder keeps the invariant -/

theorem Consistent.addState {s : Fsm P α} (h : s.Consistent) (st : State) :
    (s.addState st).2.Consistent := by
  unfold Fsm.addState
  split
  · exact h
  · next hc => exact h.emplaceState (by simpa using hc)

theorem Consistent.addStates {s : Fsm P α} (h : s.Consistent) (sts : List State) :
    (s.addStates sts).2.Consistent := by
  induction sts generalizing s with
  | nil => exact h
  | cons st sts ih =>
    unfold Fsm.addStates
    split
    · exact h
    · next hc => exact ih (h.emplaceState (by simpa using hc))

theorem Consistent.setStartState {s : Fsm P α} (h : s.Consistent) (id : StateId) :
    (s.setStartState id).Consistent := by
  unfold Fsm.setStartState
  split
  · exact h
  · next st hst =>
    exact ⟨h.sorted, h.ids, h.keys, fun x hx => Option.some_inj.mp hx ▸ stateAt_mem hst, h.error,
      h.stop, h.current⟩

theorem Consistent.setErrorState {s : Fsm P α} (h : s.Consistent) (id : StateId) :
    (s.setErrorState id).2.Consistent := by
  unfold Fsm.setErrorState
  split
  · exact h
  · next st hst =>
    exact ⟨h.sorted, h.ids, h.keys, h.start, fun x hx => Option.some_inj.mp hx ▸ stateAt_mem hst,
      h.stop, h.current⟩

theorem Consistent.addStopState {s : Fsm P α} (h : s.Consistent) (id : StateId) :
    (s.addStopState id).2.Consistent := by
  unfold Fsm.addStopState
  split
  · exact h
  · next st hst =>
    refine ⟨h.sorted, h.ids, h.keys, h.start, h.error, fun x hx => ?_, h.current⟩
    rcases List.mem_append.mp hx with hx | hx
    · exact h.stop x hx
    · obtain rfl := List.mem_singleton.mp hx
      exact stateAt_mem hst

theorem Consistent.addStopStates {s s' : Fsm P α} (h : s.Consistent) {ids : List StateId}
    {b : Bool} (hb : s.addStopStates ids = some (b, s')) : s'.Consistent := by
  obtain ⟨sts, hsts, rfl⟩ := addStopStates_eq hb
  refine ⟨h.sorted, h.ids, h.keys, h.start, h.error, fun x hx => ?_, h.current⟩
  rcases List.mem_append.mp hx with hx | hx
  · exact h.stop x hx
  · exact hsts x hx

theorem Consistent.updateAlphabet {s : Fsm P α} (h : s.Consistent) (t : Transition P) :
    (s.updateAlphabet t).Consistent := by
  unfold Fsm.updateAlphabet
  split
  · exact h
  · exact ⟨h.sorted, h.ids, h.keys, h.start, h.error, h.stop, h.current⟩

theorem Consistent.addAlphabetSymbol {s : Fsm P α} (h : s.Consistent) (e : P.Event) :
    (s.addAlphabetSymbol e).2.Consistent := by
  unfold Fsm.addAlphabetSymbol
  split
  · exact h
  · exact ⟨h.sorted, h.ids, h.keys, h.start, h.error, h.stop, h.current⟩

theorem Consistent.copy {o : Fsm P α} (h : o.Consistent) (s : Fsm P α) : (s.copy o).Consistent :=
  ⟨h.sorted, h.ids, h.keys, h.start, h.error, h.stop, h.current⟩

/-! ## Every operation keeps the invariant -/

/-- The invariant reads the automaton, the current state and the status. -/
theorem Consistent.ofAutomaton {s s' : Fsm P α} (h : s.Consistent) (ha : s'.automaton = s.automaton)
    (hc : s'.status ≠ .stopped → ∃ st ∈ s.states, st.id = s'.current) : s'.Consistent := by
  simp only [automaton, Automaton.mk.injEq] at ha
  obtain ⟨hstt, hst, hstop, hstart, herr, -⟩ := ha
  refine ⟨?_, ?_, ?_, fun x hx => ?_, fun x hx => ?_, fun x hx => ?_, fun hs => ?_⟩ <;>
    simp only [hstt, hst, hstop, hstart, herr] at *
  exacts [h.sorted, h.ids, h.keys, h.start x hx, h.error x hx, h.stop x hx, hc hs]

/-- `settle` runs only at a registered destination, and leaves the engine where
it was put or at the error state. -/
theorem settle_current {s s' : Fsm P α} {next : StateId} {a : α} {dest err : Handler P α}
    {rv : FsmStatus} (h : s.settle next a dest err = some (rv, s')) :
    (∃ st ∈ s.states, st.id = next) ∧
      ((s'.current = s.current ∧ s'.status = s.status) ∨
        ∃ es, s.errorState = some es ∧ s'.current = es.id) := by
  obtain ⟨st, ok, s₁, hst, hinv, hr⟩ := settle_cases h
  obtain ⟨evs, fl, rfl⟩ := invoke_cases hinv
  refine ⟨⟨st, stateAt_mem hst, stateAt_id hst⟩, ?_⟩
  rcases hr with ⟨-, -, rfl⟩ | ⟨-, -, s₂, he, rfl⟩
  · exact .inl ⟨by split_ifs <;> rfl, by split_ifs <;> rfl⟩
  · obtain ⟨es, hes, -, hcur⟩ := toErrorState_spec he
    exact .inr ⟨es, hes, hcur⟩

/-- After a step the engine is where it was, at a registered state, or at the
error state. -/
theorem step_current {s s' : Fsm P α} {dest err : Handler P α} {rv : FsmStatus}
    (h : s.step dest err = some (rv, s')) :
    (s'.current = s.current ∧ s'.status = s.status) ∨ (∃ st ∈ s.states, st.id = s'.current) ∨
      ∃ es, s.errorState = some es ∧ s'.current = es.id := by
  rcases step_cases h with ⟨-, -, rfl⟩ | ⟨e, a, rest, -, ⟨-, -, rfl⟩ | ⟨-, t, s₁, -, ht, rfl⟩⟩
  · exact .inl ⟨rfl, rfl⟩
  · exact .inl ⟨rfl, rfl⟩
  · obtain ⟨⟨st, hst, hid⟩, hc | ⟨es, hes, hcur⟩⟩ := settle_current ht
    · exact .inr (.inl ⟨st, hst, hid.trans hc.1.symm⟩)
    · exact .inr (.inr ⟨es, hes, hcur⟩)

theorem Consistent.apply {s s' : Fsm P α} (h : s.Consistent) {op : Op P α}
    (hop : s.apply op = some s') : s'.Consistent := by
  refine h.ofAutomaton (apply_operates hop).automaton fun hne => ?_
  cases op with
  | call c =>
    obtain ⟨⟨b, s₁⟩, hc, rfl⟩ := Option.map_eq_some'.mp hop
    obtain ⟨evs, fl, rfl⟩ := call_queueOnly hc
    exact h.current hne
  | step dest err =>
    obtain ⟨⟨rv, s₁⟩, hs, rfl⟩ := Option.map_eq_some'.mp hop
    rcases step_current hs with ⟨hc, hst⟩ | hreg | ⟨es, hes, hc⟩
    · obtain ⟨x, hx, hid⟩ := h.current (hst ▸ hne)
      exact ⟨x, hx, hid.trans hc.symm⟩
    · exact hreg
    · exact ⟨es, h.error es hes, hc.symm⟩
  | halt =>
    cases hop
    by_cases hr : s.running = true
    · simp only [halt, hr, if_true, ne_eq, not_true_eq_false] at hne
    · rw [halt, if_neg hr] at hne ⊢
      exact h.current hne
  | stop =>
    obtain ⟨⟨b, s₁⟩, hs, rfl⟩ := Option.map_eq_some'.mp hop
    rcases stop_eq hs with rfl | rfl
    · exact h.current hne
    · exact absurd rfl hne
  | start check =>
    rcases start_eq hop with rfl | ⟨st, hst, rfl⟩
    · exact h.current hne
    · exact ⟨st, h.start st hst, rfl⟩

/-- **Every reachable engine is consistent.** -/
theorem Reachable.consistent {s : Fsm P α} (h : s.Reachable) : s.Consistent := by
  induction h with
  | init =>
    exact ⟨List.sorted_nil, List.nodup_nil, List.nodup_nil, (fun _ h => nomatch h),
      (fun _ h => nomatch h), (fun _ h => nomatch h), fun h => absurd rfl h⟩
  | addState st _ ih => exact ih.addState st
  | addStates sts _ ih => exact ih.addStates sts
  | setStartState id _ ih => exact ih.setStartState id
  | setErrorState id _ ih => exact ih.setErrorState id
  | addStopState id _ ih => exact ih.addStopState id
  | addStopStates ids _ hb ih => exact ih.addStopStates hb
  | addAlphabetSymbol e _ ih => exact ih.addAlphabetSymbol e
  | addTransition id t _ ih => exact (ih.updateAlphabet t).emplaceRow _ t
  | addTransitionArgs id e next _ ih => exact (ih.updateAlphabet _).emplaceRow _ _
  | apply op _ hop ih => exact ih.apply hop
  | copy _ _ _ iho => exact iho.copy _

theorem Consistent.stateAt_iff {s : Fsm P α} (h : s.Consistent) {id : StateId} {st : State} :
    s.stateAt id = some st ↔ st ∈ s.states ∧ st.id = id :=
  ⟨fun hst => ⟨stateAt_mem hst, stateAt_id hst⟩, fun ⟨hst, hid⟩ => hid ▸ h.stateAt_eq hst⟩

/-- **The maps and references of a reachable engine.** `m_states` lists one
state per id, in key order, and `stateAt` finds exactly the state of an id;
`m_stt` holds one row per key; the start, error and stop states are found under
their ids; and an engine that is running or in `Error` is at a registered state,
so `m_states.at(m_current)` has an entry. -/
theorem reachable_maps_consistent {s : Fsm P α} (hs : s.Reachable) :
    s.states.Sorted (fun a b => a.id ≤ b.id) ∧ (s.states.map State.id).Nodup ∧
      (∀ id st, s.stateAt id = some st ↔ st ∈ s.states ∧ st.id = id) ∧
      (s.stt.map Prod.fst).Nodup ∧
      (∀ st, s.startState = some st ∨ s.errorState = some st ∨ st ∈ s.stopStates →
        s.stateAt st.id = some st) ∧
      (s.status ≠ .stopped → ∃ cur, s.stateAt s.current = some cur) := by
  have h := hs.consistent
  refine ⟨h.sorted, h.ids, fun _ _ => h.stateAt_iff, h.keys, fun st hst => h.stateAt_eq ?_,
    h.stateAt_current⟩
  rcases hst with hst | hst | hst
  exacts [h.start st hst, h.error st hst, h.stop st hst]

theorem idleLight_maps_consistent :
    idleLight.Reachable ∧
      (idleLight.states.Sorted (fun a b => a.id ≤ b.id) ∧ (idleLight.states.map State.id).Nodup ∧
        (∀ id st, idleLight.stateAt id = some st ↔ st ∈ idleLight.states ∧ st.id = id) ∧
        (idleLight.stt.map Prod.fst).Nodup ∧
        (∀ st, idleLight.startState = some st ∨ idleLight.errorState = some st ∨
          st ∈ idleLight.stopStates → idleLight.stateAt st.id = some st) ∧
        (idleLight.status ≠ .stopped → ∃ cur, idleLight.stateAt idleLight.current = some cur)) :=
  have hs : idleLight.Reachable := (trafficLight_reachable 1).apply (.start true) rfl
  ⟨hs, reachable_maps_consistent hs⟩

/-- **The table, the alphabet and the status of a reachable engine.** Every row
of `m_stt` is stored under the packed key of its own event, `m_alphabet` holds
no symbol twice, and `m_status` is never `Fault`, which a step only returns. -/
theorem reachable_wellFormed {s : Fsm P α} (hs : s.Reachable) :
    (∀ k t, (k, t) ∈ s.stt → ∃ id, k = sttKey P.layout id t.event) ∧ s.alphabet.Nodup ∧
      s.status ≠ .fault :=
  ⟨hs.wf.keyed, hs.wf.nodup, hs.wf.status_ne_fault⟩

theorem idleLight_wellFormed :
    idleLight.Reachable ∧
      ((∀ k t, (k, t) ∈ idleLight.stt → ∃ id, k = sttKey Policy.u32.layout id t.event) ∧
        idleLight.alphabet.Nodup ∧ idleLight.status ≠ .fault) :=
  have hs : idleLight.Reachable := (trafficLight_reachable 1).apply (.start true) rfl
  ⟨hs, reachable_wellFormed hs⟩

/-! ## Insert and find -/

/-- **`addState` is a map insertion.** On a reachable engine, after
`addState(st)` the state map finds `st` under its id if the call returned
`true`, and under every other id what it found before; a refused call changes
nothing. -/
theorem addState_stateAt {s : Fsm P α} (hs : s.Reachable) (st : State) (id : StateId) :
    (s.addState st).2.stateAt id =
      if (s.addState st).1.2 = true ∧ id = st.id then some st else s.stateAt id := by
  have h := hs.consistent
  unfold Fsm.addState
  split
  · simp
  · next hc =>
    have hf : s.contains st.id = false := by simpa using hc
    have hfresh : ∀ x ∈ s.states, x.id ≠ st.id := fun x hx hid => by
      simpa [hid] using List.any_eq_false.mp hf x hx
    refine Option.ext fun x => ?_
    simp only [Option.mem_def, (h.emplaceState hf).stateAt_iff, mem_emplaceState]
    by_cases hid : id = st.id
    · subst hid
      aesop
    · simp only [hid, and_false, if_false, h.stateAt_iff]
      aesop

theorem trafficLight_addState_stateAt :
    (trafficLight 1).Reachable ∧
      ((trafficLight 1).addState ⟨4, 0, true⟩).2.stateAt 4 =
        if ((trafficLight 1).addState ⟨4, 0, true⟩).1.2 = true ∧ (4 : StateId) = (⟨4, 0, true⟩ : State).id
        then some ⟨4, 0, true⟩ else (trafficLight 1).stateAt 4 :=
  ⟨trafficLight_reachable 1, addState_stateAt (trafficLight_reachable 1) ⟨4, 0, true⟩ 4⟩

end Fsm

end LwiotFsm
