import Mathlib.Data.List.Perm.Basic
import Mathlib.Data.List.Range

/-!
# A ledger of queued records

What the engine's event queue is for, stated over tagged records. Every record
pushed gets a fresh tag, and the ledger remembers where it came from and, for a
record pushed at the front, which tags were queued when it was pushed. A sound
ledger (`Ledger.Sound`) has served or still queues each issued tag exactly
once, serves the records pushed at the back in the order they were pushed, and
serves a record pushed at the front before every record that was queued when it
was pushed.

`Ledger.replay_sound` shows that every sequence of pushes and pops keeps the
ledger sound, and that its queue, read as records, is the plain list queue the
operations build.
-/

namespace LwiotFsm

/-- An operation on a double-ended queue of records: the only ones `FsmBase`
performs on `m_events`. -/
inductive QueueOp (R : Type) where
  | pushBack (r : R)
  | pushFront (r : R)
  | popFront

namespace QueueOp

variable {R : Type}

def exec : QueueOp R → List R → List R
  | pushBack r, q => q ++ [r]
  | pushFront r, q => r :: q
  | popFront, q => q.tail

/-- The queue after a sequence of operations. -/
def replay (τ : List (QueueOp R)) (q : List R) : List R := τ.foldl (fun q o => o.exec q) q

@[simp] theorem replay_nil (q : List R) : replay [] q = q := rfl

@[simp] theorem replay_cons (o : QueueOp R) (τ : List (QueueOp R)) (q : List R) :
    replay (o :: τ) q = replay τ (o.exec q) := rfl

theorem replay_append (τ₁ τ₂ : List (QueueOp R)) (q : List R) :
    replay (τ₁ ++ τ₂) q = replay τ₂ (replay τ₁ q) :=
  List.foldl_append _ _ _ _

end QueueOp

/-- Where a tagged record came from. -/
inductive Origin where
  /-- Queued before the ledger was opened. -/
  | queued
  /-- Pushed at the back. -/
  | raised
  /-- Pushed at the front. -/
  | transitioned
  deriving DecidableEq

structure Entry (R : Type) where
  origin : Origin
  record : R
  /-- For a record pushed at the front, the tags queued when it was pushed. -/
  ahead : List Nat

structure Ledger (R : Type) where
  /-- The entry of tag `t` at index `t`. -/
  issued : List (Entry R)
  queue : List Nat
  /-- The tags popped so far, in the order they were popped. -/
  served : List Nat

namespace Ledger

variable {R : Type}

/-- A ledger opened on a queue: its records get the tags `0, 1, …`. -/
def ofQueue (q : List R) : Ledger R :=
  ⟨q.map fun r => ⟨.queued, r, []⟩, List.range q.length, []⟩

def exec (g : Ledger R) : QueueOp R → Ledger R
  | .pushBack r =>
    { g with issued := g.issued ++ [⟨.raised, r, []⟩], queue := g.queue ++ [g.issued.length] }
  | .pushFront r =>
    { g with issued := g.issued ++ [⟨.transitioned, r, g.queue⟩], queue := g.issued.length :: g.queue }
  | .popFront =>
    match g.queue with
    | [] => g
    | t :: q => { g with queue := q, served := g.served ++ [t] }

def replay (g : Ledger R) (τ : List (QueueOp R)) : Ledger R := τ.foldl exec g

theorem exec_popFront_cons {g : Ledger R} {t : Nat} {q : List Nat} (h : g.queue = t :: q) :
    g.exec .popFront = { g with queue := q, served := g.served ++ [t] } := by
  simp only [exec, h]

/-- The queue, as records. -/
def records (g : Ledger R) : List R := g.queue.filterMap fun t => g.issued[t]?.map (·.record)

/-- Every tag in the order the ledger serves it: those popped, then the queue
front to back. -/
def order (g : Ledger R) : List Nat := g.served ++ g.queue

def raised (g : Ledger R) (t : Nat) : Bool := g.issued[t]?.map (·.origin) == some .raised

structure Sound (g : Ledger R) : Prop where
  /-- No tag is lost, none is there twice, and none was never issued. -/
  perm : g.order.Perm (List.range g.issued.length)
  /-- The records pushed at the back are served in the order they were pushed. -/
  fifo : g.order.filter g.raised = (List.range g.issued.length).filter g.raised
  /-- A record pushed at the front is served before every tag queued when it
  was pushed. -/
  first : ∀ t e, g.issued[t]? = some e → e.origin = .transitioned →
    ∀ u ∈ e.ahead, [t, u].Sublist g.order

/-! ## Issuing a tag -/

theorem getElem?_snoc {l : List (Entry R)} {x e : Entry R} {t : Nat} (h : (l ++ [x])[t]? = some e) :
    l[t]? = some e ∨ t = l.length ∧ x = e := by
  rcases Nat.lt_or_ge t l.length with ht | ht
  · exact .inl ((List.getElem?_append_left ht).symm.trans h)
  · rw [List.getElem?_append_right ht] at h
    match hk : t - l.length, h with
    | 0, h => exact .inr ⟨by omega, by simpa using h⟩
    | _ + 1, h => simp at h

theorem Sound.lt {g : Ledger R} (h : g.Sound) {t : Nat} (ht : t ∈ g.order) : t < g.issued.length :=
  List.mem_range.mp (h.perm.mem_iff.mp ht)

/-- Issuing a tag changes no other tag's origin. -/
theorem raised_snoc {g : Ledger R} (x : Entry R) {issued : List (Entry R)} {queue served : List Nat}
    (hi : issued = g.issued ++ [x]) {t : Nat} (ht : t < g.issued.length) :
    (⟨issued, queue, served⟩ : Ledger R).raised t = g.raised t := by
  simp only [raised, hi, List.getElem?_append_left ht]

/-- Issuing a tag changes no other tag's record. -/
theorem filterMap_snoc (l : List (Entry R)) (x : Entry R) {ts : List Nat}
    (hts : ∀ t ∈ ts, t < l.length) :
    ts.filterMap (fun t => (l ++ [x])[t]?.map (·.record)) = ts.filterMap fun t => l[t]?.map (·.record) :=
  List.filterMap_congr fun t ht => by rw [List.getElem?_append_left (hts t ht)]

/-! ## Each operation keeps the ledger sound -/

theorem Sound.congr {g g' : Ledger R} (h : g.Sound) (hi : g'.issued = g.issued)
    (ho : g'.order = g.order) : g'.Sound := by
  obtain ⟨issued, queue, served⟩ := g'
  simp only at hi
  subst hi
  have hr : (⟨g.issued, queue, served⟩ : Ledger R).raised = g.raised := rfl
  exact ⟨ho ▸ h.perm, ho ▸ hr ▸ h.fifo, ho ▸ h.first⟩

theorem Sound.popFront {g : Ledger R} (h : g.Sound) : (g.exec .popFront).Sound := by
  cases hq : g.queue with
  | nil => simpa only [exec, hq] using h
  | cons t q => exact h.congr (by rw [exec_popFront_cons hq]) (by simp [exec_popFront_cons hq, order, hq])

/-- Pushing a record changes no older tag's origin. -/
theorem raised_exec {g : Ledger R} {o : QueueOp R} (ho : o ≠ .popFront) {t : Nat}
    (ht : t < g.issued.length) : (g.exec o).raised t = g.raised t := by
  cases o with
  | pushBack r => exact raised_snoc _ rfl ht
  | pushFront r => exact raised_snoc _ rfl ht
  | popFront => exact absurd rfl ho

/-- Filtering the old tags by origin reads the same before and after a push. -/
theorem filter_raised_exec {g : Ledger R} (h : g.Sound) {o : QueueOp R} (ho : o ≠ .popFront) :
    g.order.filter (g.exec o).raised = g.order.filter g.raised ∧
      (List.range g.issued.length).filter (g.exec o).raised =
        (List.range g.issued.length).filter g.raised :=
  ⟨List.filter_congr fun _ ht => raised_exec ho (h.lt ht),
    List.filter_congr fun _ ht => raised_exec ho (List.mem_range.mp ht)⟩

theorem Sound.pushBack {g : Ledger R} (h : g.Sound) (r : R) : (g.exec (.pushBack r)).Sound := by
  set n := g.issued.length
  have hi : (g.exec (.pushBack r)).issued.length = n + 1 := by simp [Ledger.exec, n]
  have ho : (g.exec (.pushBack r)).order = g.order ++ [n] := by simp [Ledger.exec, order, n]
  obtain ⟨hord, hrng⟩ := filter_raised_exec h (show QueueOp.pushBack r ≠ .popFront from nofun)
  refine ⟨?_, ?_, ?_⟩
  · rw [ho, hi, List.range_succ]
    exact h.perm.append_right [n]
  · rw [ho, hi, List.range_succ, List.filter_append, List.filter_append, hord, hrng, h.fifo]
  · intro t e he hor u hu
    rcases getElem?_snoc he with he | ⟨-, rfl⟩
    · exact (h.first t e he hor u hu).trans (ho ▸ List.sublist_append_left _ _)
    · cases hor

theorem Sound.pushFront {g : Ledger R} (h : g.Sound) (r : R) : (g.exec (.pushFront r)).Sound := by
  set n := g.issued.length
  have hi : (g.exec (.pushFront r)).issued.length = n + 1 := by simp [Ledger.exec, n]
  have ho : (g.exec (.pushFront r)).order = g.served ++ n :: g.queue := rfl
  have hn : (g.exec (.pushFront r)).raised n = false := by simp [Ledger.exec, raised, n]
  obtain ⟨hord, hrng⟩ := filter_raised_exec h (show QueueOp.pushFront r ≠ .popFront from nofun)
  refine ⟨?_, ?_, ?_⟩
  · rw [ho, hi, List.range_succ]
    exact List.perm_middle.trans ((h.perm.cons n).trans (List.perm_append_singleton _ _).symm)
  · have hl : (g.served ++ n :: g.queue).filter (g.exec (.pushFront r)).raised =
        g.order.filter (g.exec (.pushFront r)).raised := by
      simp [order, List.filter_append, List.filter_cons, hn]
    have hr : (List.range (n + 1)).filter (g.exec (.pushFront r)).raised =
        (List.range n).filter (g.exec (.pushFront r)).raised := by
      simp [List.range_succ, List.filter_append, List.filter_cons, hn]
    rw [ho, hi, hl, hr, hord, hrng, h.fifo]
  · intro t e he hor u hu
    rcases getElem?_snoc he with he | ⟨rfl, rfl⟩
    · exact (h.first t e he hor u hu).middle n
    · exact ((List.singleton_sublist.mpr hu).cons₂ _).trans (List.sublist_append_right _ _)

theorem exec_sound {g : Ledger R} (h : g.Sound) : ∀ o : QueueOp R, (g.exec o).Sound
  | .pushBack r => h.pushBack r
  | .pushFront r => h.pushFront r
  | .popFront => h.popFront

/-- The ledger's queue follows the list queue. -/
theorem records_exec {g : Ledger R} (h : g.Sound) :
    ∀ o : QueueOp R, (g.exec o).records = o.exec g.records
  | .pushBack r => by
    have hq : ∀ t ∈ g.queue, t < g.issued.length := fun t ht => h.lt (List.mem_append_right _ ht)
    simp [Ledger.exec, records, QueueOp.exec, filterMap_snoc _ _ hq]
  | .pushFront r => by
    have hq : ∀ t ∈ g.queue, t < g.issued.length := fun t ht => h.lt (List.mem_append_right _ ht)
    simp [Ledger.exec, records, QueueOp.exec, filterMap_snoc _ _ hq]
  | .popFront => by
    cases hq : g.queue with
    | nil => simp [Ledger.exec, records, hq, QueueOp.exec]
    | cons t q =>
      have ht : t < g.issued.length := h.lt (by simp [order, hq])
      simp [exec_popFront_cons hq, records, hq, QueueOp.exec, List.getElem?_eq_getElem ht]

/-! ## Runs -/

theorem ofQueue_sound (q : List R) : (ofQueue q).Sound where
  perm := by simp [ofQueue, order]
  fifo := by simp [ofQueue, order]
  first t e he hor := by
    simp only [ofQueue, List.getElem?_map, Option.map_eq_some'] at he
    obtain ⟨_, -, rfl⟩ := he
    cases hor

theorem filterMap_getElem?_range : ∀ l : List R, (List.range l.length).filterMap (fun t => l[t]?) = l
  | [] => rfl
  | r :: l => by
    simp [List.range_succ_eq_map, List.filterMap_map, Function.comp_def, filterMap_getElem?_range l]

theorem records_ofQueue (q : List R) : (ofQueue q).records = q := by
  simpa [records, ofQueue, List.getElem?_map, Function.comp_def] using filterMap_getElem?_range q

/-- **Every run of queue operations keeps the ledger sound**, and the ledger's
records are the queue the operations build. -/
theorem replay_sound {g : Ledger R} (h : g.Sound) :
    ∀ τ, (g.replay τ).Sound ∧ (g.replay τ).records = QueueOp.replay τ g.records
  | [] => ⟨h, rfl⟩
  | o :: τ => by
    have ih := replay_sound (exec_sound h o) τ
    rw [records_exec h o] at ih
    exact ih

end Ledger

end LwiotFsm
