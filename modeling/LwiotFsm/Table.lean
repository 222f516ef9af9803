import LwiotFsm.Run

/-!
# The transition table

`m_stt` is keyed by the packed `SttIndex` integer, not by the (state, event)
pair. Where the event type has at most four bytes the key is injective
(`sttKey_inj`), so on every reachable engine the table behaves as a map from
pairs: `addTransition` refuses a row exactly when one for the same pair is
stored, and every row a probe finds carries the probed event.
-/

namespace LwiotFsm.Fsm

variable {P : Policy} {α : Type}

theorem mem_of_findRow {s : Fsm P α} {k : Nat} {t : Transition P} (h : s.findRow k = some t) :
    (k, t) ∈ s.stt := by
  obtain ⟨x, hx, rfl⟩ := Option.map_eq_some'.mp h
  have hk : x.1 = k := by simpa using List.find?_some hx
  rw [← hk]
  exact List.mem_of_find?_eq_some hx

theorem findRow_isSome {s : Fsm P α} {k : Nat} :
    (s.findRow k).isSome ↔ ∃ t, (k, t) ∈ s.stt := by
  simp [findRow]

/-- Every row `lookup` returns is found by a probe of `m_stt` on the event. -/
theorem lookupAux_found {s : Fsm P α} {e : P.Event} {t : Transition P} :
    ∀ {fuel : Nat} {st : State}, s.lookupAux e fuel st = some (some t) →
      ∃ id, s.findRow (sttKey P.layout id e) = some t
  | 0, _, h => by cases h
  | fuel + 1, st, h => by
    unfold lookupAux at h
    split at h
    next t' ht' => cases h; exact ⟨st.id, ht'⟩
    next =>
      split at h
      · cases h
      · obtain ⟨p, -, hp⟩ := Option.bind_eq_some.mp h
        exact lookupAux_found hp

/-- A row stored under a packed key carries the event packed into it. -/
theorem Wf.event_of_mem (hL : P.layout.eventSize ≤ 4) {s : Fsm P α} (hs : s.Wf)
    {id : StateId} {e : P.Event} {t : Transition P} (h : (sttKey P.layout id e, t) ∈ s.stt) :
    t.event = e := by
  obtain ⟨id', hk⟩ := hs.keyed _ _ h
  exact ((sttKey_inj hL hk).2).symm

theorem emplaceRow_refused {s : Fsm P α} {k : Nat} {t : Transition P} :
    (s.emplaceRow k t).1 = false ↔ ∃ t', (k, t') ∈ s.stt := by
  unfold emplaceRow
  split <;> next h => simpa [findRow_isSome] using h

theorem updateAlphabet_stt (s : Fsm P α) (t : Transition P) : (s.updateAlphabet t).stt = s.stt := by
  unfold updateAlphabet
  split <;> rfl

/-- The consequences of an injective key for the table of an engine. -/
structure RowsByPair (s : Fsm P α) : Prop where
  addTransition : ∀ id t, (s.addTransition id t).1 = false ↔
    ∃ t', (sttKey P.layout id t.event, t') ∈ s.stt ∧ t'.event = t.event
  addTransitionArgs : ∀ id e next, (s.addTransitionArgs id e next).1 = false ↔
    ∃ t', (sttKey P.layout id e, t') ∈ s.stt ∧ t'.event = e
  findRow : ∀ id e t, s.findRow (sttKey P.layout id e) = some t → t.event = e
  lookup : ∀ st e t, s.lookup st e = some (some t) → t.event = e

theorem refused_iff (hL : P.layout.eventSize ≤ 4) {s : Fsm P α} (hs : s.Wf) {id : StateId}
    {e : P.Event} {t : Transition P} :
    ((s.updateAlphabet t).emplaceRow (sttKey P.layout id e) t).1 = false ↔
      ∃ t', (sttKey P.layout id e, t') ∈ s.stt ∧ t'.event = e := by
  rw [emplaceRow_refused, updateAlphabet_stt]
  exact ⟨fun ⟨t', h⟩ => ⟨t', h, hs.event_of_mem hL h⟩, fun ⟨t', h, _⟩ => ⟨t', h⟩⟩

/-- **The packed key identifies the state, and for events of at most four bytes
the (state, event) pair.** Whatever the event type, distinct states get distinct
keys. With an event of at most four bytes, on every reachable engine
`addTransition`, in either overload, refuses a row exactly when a row for the
same pair is stored, and a row found by `lookup`, or by any probe `accept`
makes, carries the event probed for. -/
theorem packed_key_sound {s : Fsm P α} (hs : s.Reachable) :
    (∀ (id₁ id₂ : StateId) (e₁ e₂ : P.Event),
      sttKey P.layout id₁ e₁ = sttKey P.layout id₂ e₂ → id₁ = id₂) ∧
    (P.layout.eventSize ≤ 4 →
      (∀ (id₁ id₂ : StateId) (e₁ e₂ : P.Event),
        sttKey P.layout id₁ e₁ = sttKey P.layout id₂ e₂ → id₁ = id₂ ∧ e₁ = e₂) ∧
      s.RowsByPair) := by
  refine ⟨fun _ _ _ _ h => sttKey_state_inj h, fun hL => ?_⟩
  have hw := hs.wf
  have hfind : ∀ id e t, s.findRow (sttKey P.layout id e) = some t → t.event = e :=
    fun _ _ _ h => hw.event_of_mem hL (mem_of_findRow h)
  refine ⟨fun _ _ _ _ h => sttKey_inj hL h, fun id t => refused_iff hL hw, fun id e next => ?_,
    hfind, fun st e t h => ?_⟩
  · rw [addTransitionArgs, sttKeyArgs_eq]
    exact refused_iff hL hw
  · obtain ⟨id, hid⟩ := lookupAux_found h
    exact hfind id e t hid

theorem packed_key_sound_u32 :
    (trafficLight 1).Reachable ∧ Policy.u32.layout.eventSize ≤ 4 ∧
      ((∀ (id₁ id₂ : StateId) (e₁ e₂ : Policy.u32.Event),
        sttKey Policy.u32.layout id₁ e₁ = sttKey Policy.u32.layout id₂ e₂ → id₁ = id₂) ∧
      (Policy.u32.layout.eventSize ≤ 4 →
        (∀ (id₁ id₂ : StateId) (e₁ e₂ : Policy.u32.Event),
          sttKey Policy.u32.layout id₁ e₁ = sttKey Policy.u32.layout id₂ e₂ →
            id₁ = id₂ ∧ e₁ = e₂) ∧
        (trafficLight 1).RowsByPair)) :=
  ⟨trafficLight_reachable 1, by decide, packed_key_sound (trafficLight_reachable 1)⟩

/-- The light's table answers as a map: the row `(G, tick)` is stored, so a
second one is refused, while `(G, 2)` is free. -/
example :
    ((trafficLight 1).addTransition 1 ⟨1, 3⟩).1 = false ∧
      ((trafficLight 1).addTransition 1 ⟨2, 3⟩).1 = true := by
  decide

/-! ## Insert and find -/

/-- `emplace` stores a row under an absent key and leaves every other key's row. -/
theorem findRow_emplaceRow (s : Fsm P α) (k k' : Nat) (t : Transition P) :
    (s.emplaceRow k t).2.findRow k' =
      if (s.emplaceRow k t).1 = true ∧ k' = k then some t else s.findRow k' := by
  unfold emplaceRow
  split
  · simp
  · next hk =>
    by_cases hkk : k' = k
    · subst hkk
      have hnone : s.stt.find? (·.1 == k') = none :=
        Option.map_eq_none'.mp (Option.not_isSome_iff_eq_none.mp hk)
      simp [findRow, List.find?_append, hnone]
    · simp [findRow, List.find?_append, hkk, Ne.symm hkk]

/-- **`addTransition` is a map insertion on (state, event) pairs.** For events of
at most four bytes, after `addTransition(id, t)` the table finds `t` under
`(id, t.event)` if the call returned `true`, and under every other pair what it
found before; a refused call changes no row. -/
theorem addTransition_findRow (hL : P.layout.eventSize ≤ 4) (s : Fsm P α) (id : StateId)
    (t : Transition P) (id' : StateId) (e : P.Event) :
    (s.addTransition id t).2.findRow (sttKey P.layout id' e) =
      if (s.addTransition id t).1 = true ∧ id' = id ∧ e = t.event then some t
      else s.findRow (sttKey P.layout id' e) := by
  have hkey : sttKey P.layout id' e = sttKey P.layout id t.event ↔ id' = id ∧ e = t.event :=
    ⟨sttKey_inj hL, fun ⟨h₁, h₂⟩ => h₁ ▸ h₂ ▸ rfl⟩
  rw [addTransition, findRow_emplaceRow]
  simp only [hkey, findRow, updateAlphabet_stt]

theorem addTransition_findRow_u32 :
    Policy.u32.layout.eventSize ≤ 4 ∧
      ((init : Fsm Policy.u32 Nat).addTransition 1 ⟨1, 2⟩).2.findRow (sttKey Policy.u32.layout 1 1) =
        if ((init : Fsm Policy.u32 Nat).addTransition 1 ⟨1, 2⟩).1 = true ∧ (1 : StateId) = 1 ∧
            (1 : Policy.u32.Event) = (⟨1, 2⟩ : Transition Policy.u32).event then some ⟨1, 2⟩
        else (init : Fsm Policy.u32 Nat).findRow (sttKey Policy.u32.layout 1 1) :=
  ⟨by decide, addTransition_findRow (by decide) init 1 ⟨1, 2⟩ 1 1⟩

end LwiotFsm.Fsm
