import LwiotFsm.Invariant
import LwiotFsm.Copy

/-!
# What `deterministic()` decides

The state transition table is a map, so the automaton cannot be
nondeterministic; what `deterministic()` checks is that the transition function
is total where it has to be. `Complete` says so: from every registered state
every alphabet symbol resolves through the parent chain, to a row wherever the
state has a handler. With an alphabet without repeats, as every reachable
engine has, `deterministic()` returns `true` exactly on complete engines, and
it returns on every engine whose parent chains are acyclic
(`deterministic_decides_complete`).

No operation changes the automaton, so the check `start(true)` makes holds for
the rest of every run: whenever the engine runs in a state with a handler it
accepts every alphabet symbol (`valid_run_accepts`).
-/

namespace LwiotFsm.Fsm

variable {P : Policy} {α : Type}

/-- The transition function is total where `deterministic()` requires it. -/
def Complete (s : Fsm P α) : Prop :=
  ∀ st ∈ s.states, ∀ e ∈ s.alphabet, ∃ r, s.lookup st e = some r ∧ (st.hasAction = true → r.isSome)

/-! ## The two loops -/

/-- The inner loop passes exactly when every symbol it scans resolves. -/
theorem scanSymbols_eq_some_none {s : Fsm P α} {st : State} :
    ∀ {accepts es : List P.Event}, (accepts ++ es).Nodup →
      (s.scanSymbols st accepts es = some none ↔
        ∀ e ∈ es, ∃ r, s.lookup st e = some r ∧ (st.hasAction = true → r.isSome))
  | _, [], _ => by simp [scanSymbols]
  | accepts, x :: es, h => by
    have hx : x ∉ accepts := fun hx => List.disjoint_of_nodup_append h hx (List.mem_cons_self x es)
    have h' : ((x :: accepts) ++ es).Nodup := (List.perm_middle.nodup_iff).mp h
    rw [List.forall_mem_cons, ← scanSymbols_eq_some_none h']
    cases hl : s.lookup st x with
    | none => simp [scanSymbols, hl]
    | some r => cases r <;> cases hact : st.hasAction <;> simp [scanSymbols, hl, hact, hx]

theorem scanStates_eq_some_none {s : Fsm P α} (h : s.alphabet.Nodup) :
    ∀ sts : List State, s.scanStates sts = some none ↔
      ∀ st ∈ sts, ∀ e ∈ s.alphabet, ∃ r, s.lookup st e = some r ∧ (st.hasAction = true → r.isSome)
  | [] => by simp [scanStates]
  | st :: sts => by
    rw [List.forall_mem_cons, ← scanSymbols_eq_some_none (show ([] ++ s.alphabet).Nodup from h),
      ← scanStates_eq_some_none h sts, scanStates]
    cases s.scanSymbols st [] s.alphabet with
    | none => simp
    | some d => cases d <;> simp

theorem deterministic_eq_true_iff {s : Fsm P α} (h : s.alphabet.Nodup) :
    s.deterministic = some true ↔ s.Complete := by
  rw [Complete, ← scanStates_eq_some_none h, deterministic, checkDeterministic]
  cases s.scanStates s.states with
  | none => simp
  | some d => cases d <;> simp

theorem scanSymbols_isSome {s : Fsm P α} {st : State} (hl : ∀ e, (s.lookup st e).isSome) :
    ∀ accepts es, (s.scanSymbols st accepts es).isSome
  | _, [] => rfl
  | accepts, e :: es => by
    obtain ⟨r, hr⟩ := Option.isSome_iff_exists.mp (hl e)
    simp only [scanSymbols, hr, Option.some_bind]
    split
    · rfl
    · split
      · rfl
      · exact scanSymbols_isSome hl _ es

theorem scanStates_isSome {s : Fsm P α} (hs : s.Acyclic) :
    ∀ sts : List State, (∀ st ∈ sts, st ∈ s.states) → (s.scanStates sts).isSome
  | [], _ => rfl
  | st :: sts, hsub => by
    have hl : ∀ e, (s.lookup st e).isSome := fun e => by
      obtain ⟨c, -, hc⟩ := hs.lookup_eq (hsub st (List.mem_cons_self _ _)) e
      simp [hc]
    obtain ⟨d, hd⟩ := Option.isSome_iff_exists.mp (scanSymbols_isSome hl [] s.alphabet)
    rw [scanStates, hd, Option.some_bind]
    cases d
    · exact scanStates_isSome hs sts fun x hx => hsub x (List.mem_cons_of_mem _ hx)
    · rfl

theorem Acyclic.deterministic_isSome {s : Fsm P α} (hs : s.Acyclic) : s.deterministic.isSome := by
  simpa [deterministic, checkDeterministic] using scanStates_isSome hs s.states fun _ h => h

/-- **`deterministic()` decides completeness.** With an alphabet without
repeats, as on every reachable engine, it returns `true` exactly when from
every registered state every alphabet symbol resolves through the parent chain,
to a row wherever the state has a handler; and it returns on every engine whose
parent chains are acyclic. -/
theorem deterministic_decides_complete {s : Fsm P α} (h : s.alphabet.Nodup) :
    (s.deterministic = some true ↔ s.Complete) ∧ (s.Acyclic → s.deterministic.isSome) :=
  ⟨deterministic_eq_true_iff h, Acyclic.deterministic_isSome⟩

theorem epsilonDemo_decides_complete :
    epsilonDemo.alphabet.Nodup ∧
      ((epsilonDemo.deterministic = some true ↔ epsilonDemo.Complete) ∧
        (epsilonDemo.Acyclic → epsilonDemo.deterministic.isSome)) :=
  have h : epsilonDemo.alphabet.Nodup := by decide
  ⟨h, deterministic_decides_complete h⟩

/-! ## The check holds for the rest of a run -/

theorem run_operates {s s' : Fsm P α} {ρ : List (Op P α)} (h : s.run ρ = some s') : Operates s s' := by
  induction ρ generalizing s with
  | nil =>
    cases h
    exact Operates.refl _
  | cons op ρ ih =>
    obtain ⟨s₁, h₁, h₂⟩ := Option.bind_eq_some.mp h
    exact (apply_operates h₁).trans (ih h₂)

theorem deterministic_of_valid {s : Fsm P α} (h : s.valid = some true) : s.deterministic = some true := by
  unfold valid at h
  split_ifs at h <;> first | cases h | exact h

/-- **A valid engine keeps accepting.** If `valid()` holds on a reachable
engine, as `start(true)` checks, then after any run of operations, whenever the
engine runs in a state with a handler it accepts every alphabet symbol. -/
theorem valid_run_accepts {s s' : Fsm P α} (hs : s.Reachable) (hv : s.valid = some true)
    {ρ : List (Op P α)} (hρ : s.run ρ = some s') (hrun : s'.status = .running) {cur : State}
    (hcur : s'.stateAt s'.current = some cur) (hact : cur.hasAction = true) :
    ∀ e ∈ s'.alphabet, s'.accept e = some true := by
  intro e he
  have ha := congrArg (fun A : Automaton P => (A.stt, A.states, A.alphabet)) (run_operates hρ).automaton
  simp only [automaton, Prod.mk.injEq] at ha
  have hd : s'.deterministic = some true := by
    rw [deterministic, checkDeterministic_congr ha.1 ha.2.1 ha.2.2]
    exact deterministic_of_valid hv
  obtain ⟨r, hl, hr⟩ := (deterministic_eq_true_iff (hs.run hρ).wf.nodup).mp hd cur (stateAt_mem hcur) e he
  rw [accept_eq_lookup, if_pos (by simp [running, hrun]), hcur, Option.some_bind, hl]
  simpa using hr hact

/-- S1 after `start(true)`, `raise(tick)` and the step into `Y`. -/
def steppedLight : Fsm Policy.u32 Nat :=
  ((trafficLight 1).run [.start true, .call (.raise 1 0), .step (.returns true) (.returns true)]).getD
    init

theorem steppedLight_accepts :
    (trafficLight 1).Reachable ∧ (trafficLight 1).valid = some true ∧
      (trafficLight 1).run [.start true, .call (.raise 1 0), .step (.returns true) (.returns true)] =
        some steppedLight ∧
      steppedLight.status = .running ∧ steppedLight.stateAt steppedLight.current = some ⟨2, 0, true⟩ ∧
      (⟨2, 0, true⟩ : State).hasAction = true ∧
      ∀ e ∈ steppedLight.alphabet, steppedLight.accept e = some true :=
  have hv : (trafficLight 1).valid = some true := by decide
  have hρ : (trafficLight 1).run [.start true, .call (.raise 1 0), .step (.returns true) (.returns true)] =
      some steppedLight := rfl
  have hrun : steppedLight.status = .running := by decide
  have hcur : steppedLight.stateAt steppedLight.current = some ⟨2, 0, true⟩ := by decide
  ⟨trafficLight_reachable 1, hv, hρ, hrun, hcur, rfl,
    valid_run_accepts (trafficLight_reachable 1) hv hρ hrun hcur rfl⟩

end LwiotFsm.Fsm
