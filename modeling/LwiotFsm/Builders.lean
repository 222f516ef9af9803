import LwiotFsm.Engine

/-!
# Bulk registration

`addStopStates(ids)` checks every id in a first loop and appends in a second,
so it either appends the states of all ids or changes nothing
(`addStopStates_all_or_nothing`). `addStates(states)` checks and inserts in one
loop: it registers the states in order up to the first whose id is already
registered, keeps the ones before it, and returns `false` there
(`addStates_registers_prefix`). A repeated id, or one registered before the
call, behind a fresh one leaves the fresh state registered after a `false`
(`addStates_partial`).
-/

namespace LwiotFsm.Fsm

variable {P : Policy} {α : Type}

theorem contains_iff {s : Fsm P α} {id : StateId} :
    s.contains id = true ↔ ∃ st, s.stateAt id = some st := by
  rw [contains, List.any_eq_true, ← List.find?_isSome, Option.isSome_iff_exists]
  rfl

/-- The first loop of `addStopStates` passes exactly when every id is
registered. -/
theorem checkStopStates_iff {s : Fsm P α} :
    ∀ ids : List StateId, s.checkStopStates ids = true ↔ ∀ id ∈ ids, s.contains id = true
  | [] => by simp [checkStopStates]
  | id :: ids => by
    rw [List.forall_mem_cons, ← checkStopStates_iff ids]
    cases h : s.contains id <;> simp [checkStopStates, h]

/-- Once every id is registered, the second loop never reaches an `at` without
an entry, and appends the state of each id, in order. -/
theorem appendStopStates_of_contains {s : Fsm P α} :
    ∀ {ids : List StateId}, (∀ id ∈ ids, s.contains id = true) →
      ∃ sts, List.Forall₂ (fun id st => s.stateAt id = some st) ids sts ∧
        s.appendStopStates ids = some { s with stopStates := s.stopStates ++ sts }
  | [], _ => ⟨[], .nil, by simp [appendStopStates]⟩
  | id :: ids, h => by
    obtain ⟨st, hst⟩ := contains_iff.mp (h id (List.mem_cons_self _ _))
    have h' : ∀ i ∈ ids, ({ s with stopStates := s.stopStates ++ [st] } : Fsm P α).contains i = true :=
      fun i hi => h i (List.mem_cons_of_mem _ hi)
    obtain ⟨sts, hsts, happ⟩ := appendStopStates_of_contains h'
    refine ⟨st :: sts, .cons hst hsts, ?_⟩
    rw [appendStopStates, hst, Option.some_bind, happ]
    simp

/-- **`addStopStates` is all-or-nothing.** If every id is registered, it
appends the state of each id, in order, and returns `true`; otherwise it
returns `false` and changes nothing. The first loop's check is what keeps the
second loop's `m_states.at` defined. -/
theorem addStopStates_all_or_nothing (ids : List StateId) (s : Fsm P α) :
    ((∀ id ∈ ids, s.contains id = true) ∧
        ∃ sts, List.Forall₂ (fun id st => s.stateAt id = some st) ids sts ∧
          s.addStopStates ids = some (true, { s with stopStates := s.stopStates ++ sts })) ∨
      ((∃ id ∈ ids, s.contains id = false) ∧ s.addStopStates ids = some (false, s)) := by
  by_cases h : ∀ id ∈ ids, s.contains id = true
  · obtain ⟨sts, hsts, happ⟩ := appendStopStates_of_contains h
    refine .inl ⟨h, sts, hsts, ?_⟩
    rw [addStopStates, if_pos ((checkStopStates_iff ids).mpr h), happ]
    rfl
  · exact .inr ⟨by simpa using h, by rw [addStopStates, if_neg (mt (checkStopStates_iff ids).mp h)]⟩

/-- **What `addStates` registers.** The array splits into a prefix, whose
states are inserted one by one, and the rest. The call returns `true` iff the
rest is empty; otherwise the first state of the rest has an id registered by
the time it is reached, and nothing after it is inserted. -/
theorem addStates_registers_prefix (sts : List State) (s : Fsm P α) :
    ∃ pre post, sts = pre ++ post ∧
      (s.addStates sts).2 = pre.foldl (fun s st => s.emplaceState st) s ∧
      (((s.addStates sts).1 = true ∧ post = []) ∨
        ((s.addStates sts).1 = false ∧
          ∃ st rest, post = st :: rest ∧
            (pre.foldl (fun s st => s.emplaceState st) s).contains st.id)) := by
  induction sts generalizing s with
  | nil => exact ⟨[], [], rfl, rfl, .inl ⟨rfl, rfl⟩⟩
  | cons st sts ih =>
    by_cases hc : s.contains st.id = true
    · exact ⟨[], st :: sts, rfl, by simp [addStates, hc],
        .inr ⟨by simp [addStates, hc], st, sts, rfl, hc⟩⟩
    · obtain ⟨pre, post, hsplit, hst, hr⟩ := ih (s.emplaceState st)
      have h : s.addStates (st :: sts) = (s.emplaceState st).addStates sts := by
        simp [addStates, hc]
      exact ⟨st :: pre, post, by rw [hsplit]; rfl, by rw [h, hst]; rfl, by rw [h]; exact hr⟩

/-- A state registered ahead of a colliding one stays registered after `false`:
here the array repeats id `1`, and id `2` collides with a state registered
before the call. -/
theorem addStates_partial :
    ((init : Fsm Policy.u32 Nat).addStates [⟨1, 0, true⟩, ⟨1, 0, false⟩]).1 = false ∧
      ((init : Fsm Policy.u32 Nat).addStates [⟨1, 0, true⟩, ⟨1, 0, false⟩]).2.states =
        [⟨1, 0, true⟩] ∧
      (((init : Fsm Policy.u32 Nat).addState ⟨2, 0, true⟩).2.addStates
        [⟨1, 0, true⟩, ⟨2, 0, false⟩]).1 = false ∧
      (((init : Fsm Policy.u32 Nat).addState ⟨2, 0, true⟩).2.addStates
        [⟨1, 0, true⟩, ⟨2, 0, false⟩]).2.states = [⟨1, 0, true⟩, ⟨2, 0, true⟩] := by
  decide

end LwiotFsm.Fsm
