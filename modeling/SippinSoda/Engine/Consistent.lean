import SippinSoda.Engine.Steps
import Mathlib.Data.List.Nodup

/-!
# Exchanges, captures and tasks agree

What holds in every state the engine reaches:

* **Consistent** — every capture and every serving task belongs to a logged exchange and
  has the class that exchange began with, and no id is used twice;
* **forwarder** — an exchange is forwarded by one task at most, the first request in a
  tunnel taking over the exchange of the CONNECT.
-/

namespace SippinSoda

/-! ## The log of exchanges -/

/-- The ids of the exchanges that have begun, with their classes. -/
def Parties.registry (p : Parties) : List (Nat × DestinationClass) :=
  p.exchanges.map fun x => (x.id, x.destination)

/-- The class of the exchange a section begins. -/
def Section.begins : Section → Option DestinationClass
  | .begin _ destination _ _ => some destination
  | _ => none

theorem Parties.log_registry (p : Parties) (s : State) (sec : Section) :
    (p.log s sec).registry = p.registry ++ (sec.begins.map (s.nextId, ·)).toList := by
  cases sec <;> simp [Parties.log, Parties.registry, Section.begins]

theorem Parties.log_tasks (p : Parties) (s : State) (sec : Section) :
    (p.log s sec).tasks = p.tasks := by
  cases sec <;> rfl

theorem Parties.log_stores (p : Parties) (s : State) (sec : Section) :
    (p.log s sec).stores = p.stores := by
  cases sec <;> rfl

theorem State.apply_nextId (s : State) (now : Nat) (sec : Section) :
    (s.apply now sec).nextId = s.nextId + sec.begins.toList.length := by
  cases sec with
  | start settings address => exact (s.configured settings).evictMany_nextId _
  | _ => rfl

/-- A replaced member that maps to the same leaves the image as it is. -/
theorem map_set_eq {α β : Type} {f : α → β} {l : List α} {k : Nat} {a a' : α}
    (hk : l[k]? = some a) (hf : f a' = f a) : (l.set k a').map f = l.map f := by
  obtain ⟨hlt, rfl⟩ := List.getElem?_eq_some_iff.mp hk
  rw [List.map_set, hf, ← List.getElem_map f, List.set_getElem_self]
  rwa [List.length_map]

/-- No event takes an exchange out of the log or changes its class. -/
theorem Engine.Moved.registry {s : Engine} {e : Event} {sec : Section} {p : Parties}
    (h : s.Moved e sec p) : p.registry = s.registry := by
  cases h with
  | lifecycle h => rw [Parties.registry, (outlives_lifecycle h).exchanges, ← Parties.registry]
  | dropExchange hx hheld => exact map_set_eq hx rfl
  | exchange hx htodo => exact map_set_eq hx rfl
  | _ => rfl

/-! ## Serving tasks -/

/-- The exchange of a task that serves one: it has been serving it, or begins it. -/
def Serves (t : Task) (id : Nat) (destination : DestinationClass) : Prop :=
  ∃ x op todo, t.pc = .serving x op todo ∧ x.id = id ∧ x.destination = destination

theorem Task.Moved.serves {s : State} {now k : Nat} {t t' : Task} {a : Answer} {sec : Section}
    (h : t.Moved s now k a sec t') {id : Nat} {destination : DestinationClass}
    (ht' : Serves t' id destination) :
    Serves t id destination ∨ (sec.begins = some destination ∧ id = s.nextId) := by
  obtain ⟨x, op, todo, hpc', rfl, rfl⟩ := ht'
  cases h with
  | errand hpc =>
      cases hpc'
      exact .inl ⟨_, _, _, hpc, rfl, rfl⟩
  | deadline hpc hop =>
      cases hpc'
      exact .inl ⟨_, _, _, hpc, rfl, rfl⟩
  | asked hpc hstep hasked =>
      cases hpc'
      exact .inl ⟨_, _, _, hpc, rfl, rfl⟩
  | answered hpc hanswered =>
      cases hpc'
      exact .inl ⟨_, _, _, hpc, rfl, rfl⟩
  | begin hpc hreplay =>
      cases hpc'
      exact .inr ⟨rfl, rfl⟩
  | _ => cases hpc'

theorem Task.serves_receive {t t' : Task} {decision : BreakpointDecision}
    (h : t.receive decision = some t') {id : Nat} {destination : DestinationClass}
    (ht' : Serves t' id destination) : Serves t id destination := by
  rw [Task.receive] at h
  split at h
  next hpc =>
    cases h
    obtain ⟨x, op, todo, hpc', rfl, rfl⟩ := ht'
    cases hpc'
    exact ⟨_, _, _, hpc, rfl, rfl⟩
  next => cases h

/-- The same over all the tasks. -/
theorem Engine.Moved.serves {s : Engine} {e : Event} {sec : Section} {p : Parties}
    (h : s.Moved e sec p) {t' : Task} (ht' : t' ∈ p.tasks) {id : Nat}
    {destination : DestinationClass} (hserves : Serves t' id destination) :
    (∃ t ∈ s.tasks, Serves t id destination) ∨
      (sec.begins = some destination ∧ id = s.shared.nextId) := by
  obtain ⟨i, hi⟩ := List.mem_iff_getElem?.mp ht'
  rcases h.came hi with ⟨t, ht, hbecame⟩ | ⟨-, harrives⟩
  · have hmem := List.mem_of_getElem? ht
    cases hbecame with
    | stays => exact .inl ⟨_, hmem, hserves⟩
    | moves hallows hmoved => exact (hmoved.serves hserves).imp_left fun h => ⟨_, hmem, h⟩
    | polls hbody hstep _ => exact .inl ⟨_, hmem, hserves⟩
    | hands hpc =>
        obtain ⟨y, op, todo, hpc', rfl, rfl⟩ := hserves
        cases hpc'
        exact .inl ⟨_, hmem, _, _, _, hpc, rfl, rfl⟩
    | receives hresolver hreceive => exact .inl ⟨_, hmem, Task.serves_receive hreceive hserves⟩
  · obtain ⟨y, op, todo, hpc', rfl, rfl⟩ := hserves
    cases harrives with
    | connection => cases hpc'
    | innerFirst hk hpc =>
        cases hpc'
        exact .inl ⟨_, List.mem_of_getElem? hk, _, _, _, hpc, rfl, rfl⟩
    | innerNext hk hpc =>
        cases hpc'
        exact .inr ⟨rfl, rfl⟩

/-! ## Consistency -/

/-- Captures and tasks belong to exchanges that have begun, and have their classes. -/
structure Engine.Consistent (s : Engine) : Prop where
  ordered : s.shared.Ordered
  fresh : ∀ x ∈ s.registry, x.1 < s.shared.nextId
  unique : (s.registry.map Prod.fst).Nodup
  captured : ∀ c ∈ s.shared.traffic, (c.id, c.destinationClass) ∈ s.registry
  served : ∀ t ∈ s.tasks, ∀ id destination, Serves t id destination → (id, destination) ∈ s.registry

theorem Engine.consistent_default : Engine.default.Consistent where
  ordered := ⟨List.Pairwise.nil, fun _ h => absurd h List.not_mem_nil⟩
  fresh _ h := absurd h List.not_mem_nil
  unique := List.nodup_nil
  captured _ h := absurd h List.not_mem_nil
  served _ h := absurd h List.not_mem_nil

theorem Engine.Consistent.step {crypto : Crypto} {s s' : Engine} {e : Event}
    (h : s.Consistent) (hstep : s.step crypto e = some s') : s'.Consistent := by
  obtain ⟨sec, p, hmoved, hshared, hparties⟩ := step_cases hstep
  have hregistry : s'.registry =
      s.registry ++ (sec.begins.map (s.shared.nextId, ·)).toList := by
    rw [hparties, Parties.log_registry, hmoved.registry]
  have hnext : s'.shared.nextId = s.shared.nextId + sec.begins.toList.length := by
    rw [hshared, State.apply_nextId]
  have hnew {destination : DestinationClass} (hbegins : sec.begins = some destination) :
      (s.shared.nextId, destination) ∈ s'.registry := by
    rw [hregistry, hbegins]
    exact List.mem_append_right _ (List.mem_singleton_self _)
  have hold {x : Nat × DestinationClass} (hx : x ∈ s.registry) : x ∈ s'.registry :=
    hregistry ▸ List.mem_append_left _ hx
  refine ⟨hshared ▸ h.ordered.apply .., ?_, ?_, ?_, ?_⟩
  · intro x hx
    rw [hregistry] at hx
    rw [hnext]
    rcases List.mem_append.mp hx with hx | hx
    · exact Nat.lt_add_right _ (h.fresh x hx)
    · cases hbegins : sec.begins with
      | none => simp [hbegins] at hx
      | some destination =>
          simp only [hbegins, Option.map_some, Option.toList_some, List.mem_singleton] at hx
          simp [hx]
  · rw [hregistry, List.map_append, List.nodup_append]
    refine ⟨h.unique, ?_, ?_⟩
    · cases sec.begins <;> simp
    · intro a ha b hb
      obtain ⟨x, hx, rfl⟩ := List.mem_map.mp ha
      have := h.fresh x hx
      cases hbegins : sec.begins with
      | none => simp [hbegins] at hb
      | some destination =>
          simp only [hbegins, Option.map_some, Option.toList_some, List.map_singleton,
            List.mem_singleton] at hb
          omega
  · intro c hc
    rw [hshared] at hc
    rcases h.ordered.class_apply hc with ⟨d, hd, hid, hclass, -⟩ | ⟨_, _, rfl, hid⟩
    · exact hold (hid ▸ hclass ▸ h.captured d hd)
    · exact hid ▸ hnew rfl
  · intro t ht id destination hserves
    rw [hparties, Parties.log_tasks] at ht
    rcases hmoved.serves ht hserves with ⟨u, hu, hserves⟩ | ⟨hbegins, rfl⟩
    · exact hold (h.served u hu id destination hserves)
    · exact hnew hbegins

/-- In every reachable state captures and tasks agree with the exchanges that have begun. -/
theorem Engine.consistent {crypto : Crypto} {s : Engine} (h : (engine crypto).Reachable s) :
    s.Consistent :=
  h.invariant consistent_default fun hs _ hstep => hs.step hstep

/-- The class of an exchange is the class of its capture and of the task that serves it. -/
theorem Engine.Consistent.class_unique {s : Engine} (h : s.Consistent) {id : Nat}
    {a b : DestinationClass} (ha : (id, a) ∈ s.registry) (hb : (id, b) ∈ s.registry) : a = b :=
  (Prod.mk.inj (List.inj_on_of_nodup_map h.unique ha hb rfl)).2

/-- A capture that allows `Action::Modify` belongs to a Development exchange. -/
theorem Engine.Consistent.canModify {s : Engine} (h : s.Consistent) {t : Task} (ht : t ∈ s.tasks)
    {id : Nat} {destination : DestinationClass} (hserves : Serves t id destination) :
    s.shared.canModify id = true ↔ s.shared.Retained id ∧ destination = .development := by
  have hclass : ∀ c ∈ s.shared.traffic, c.id = id → c.destinationClass = destination := by
    rintro c hc rfl
    exact h.class_unique (h.captured c hc) (h.served t ht _ _ hserves)
  rw [State.canModify, State.capture?]
  cases hfind : s.shared.traffic.find? (·.id = id) with
  | none =>
      have hnone := List.find?_eq_none.mp hfind
      simp only [Option.any_none, Bool.false_eq_true, false_iff, not_and]
      rintro ⟨c, hc, hid⟩
      exact absurd (decide_eq_true hid) (hnone c hc)
  | some c =>
      have hmem := List.mem_of_find?_eq_some hfind
      have hid : c.id = id := by simpa using List.find?_some hfind
      rw [Option.any_some, authorized_iff (by decide), hclass c hmem hid]
      exact ⟨fun hdev => ⟨⟨c, hmem, hid⟩, hdev⟩, And.right⟩

/-! ## Points of an operation -/

/-- The exchange of a task whose operation is at one of these points. -/
def Task.at? (points : Op → Bool) (t : Task) : Option Nat :=
  match t.pc with
  | .serving x op _ => if points op then some x.id else none
  | _ => none

theorem Task.at?_eq_some {points : Op → Bool} {t : Task} {id : Nat} :
    t.at? points = some id ↔
      ∃ x op todo, t.pc = .serving x op todo ∧ points op = true ∧ x.id = id := by
  rw [Task.at?]
  constructor
  · intro h
    split at h
    next x op todo hpc =>
      split at h <;> cases h
      exact ⟨x, op, todo, hpc, ‹_›, rfl⟩
    next => cases h
  · rintro ⟨x, op, todo, hpc, hop, rfl⟩
    rw [hpc]
    exact if_pos hop

theorem Task.serves_of_at {points : Op → Bool} {t : Task} {id : Nat} (h : t.at? points = some id) :
    ∃ destination, Serves t id destination := by
  obtain ⟨x, op, todo, hpc, -, hid⟩ := Task.at?_eq_some.mp h
  exact ⟨x.destination, x, op, todo, hpc, hid, rfl⟩

/-- Points an operation is at from its beginning, or since it has taken over the exchange of
a CONNECT: it cannot come to one of them from elsewhere. -/
structure Op.Initial (points : Op → Bool) : Prop where
  asked : ∀ {seen op m}, Asked seen op m → points m.op = true → points op = true
  answered : ∀ {http2 s x seen op a m}, Answered http2 s x seen op a m →
    points m.op = true → points op = true
  refused : ∀ {op response}, op.awaits = true → points (.refused response) = true →
    points op = true
  received : ∀ {upstream draft decision}, points (.paused upstream draft (some decision)) = true →
    points (.paused upstream draft none) = true
  handed : ∀ {authority route http2}, points (.serving authority route http2 false) = true →
    points (.serving authority route http2 true) = true
  inner : ∀ {authority authority' route http2}, points (.intercepting authority') = true →
    points (.serving authority route http2 true) = true

/-- A step of a task does not take it to such a point, unless it begins an exchange. -/
theorem Task.Moved.at {points : Op → Bool} (hp : Op.Initial points) {s : State} {now k : Nat}
    {t t' : Task} {a : Answer} {sec : Section} (h : t.Moved s now k a sec t') {id : Nat}
    (ht' : t'.at? points = some id) : t.at? points = some id ∨ id = s.nextId := by
  obtain ⟨y, op', todo', hpc', hop', rfl⟩ := Task.at?_eq_some.mp ht'
  have same {x : Handling} {op : Op} {todo : List Errand} (hpc : t.pc = .serving x op todo)
      (hop : points op = true) : t.at? points = some x.id :=
    Task.at?_eq_some.mpr ⟨x, op, todo, hpc, hop, rfl⟩
  cases h with
  | errand hpc =>
      cases hpc'
      exact .inl (same hpc hop')
  | deadline hpc hop =>
      cases hpc'
      exact .inl (same hpc (hp.refused hop hop'))
  | asked hpc hstep hasked =>
      cases hpc'
      exact .inl (same hpc (hp.asked hasked hop'))
  | answered hpc hanswered =>
      cases hpc'
      exact .inl (same hpc (hp.answered hanswered hop'))
  | begin hpc hreplay =>
      cases hpc'
      exact .inr rfl
  | _ => cases hpc'

theorem Task.at_receive {points : Op → Bool} (hp : Op.Initial points) {t t' : Task}
    {decision : BreakpointDecision} (h : t.receive decision = some t') {id : Nat}
    (ht' : t'.at? points = some id) : t.at? points = some id := by
  rw [Task.receive] at h
  split at h
  next hpc =>
    cases h
    obtain ⟨y, op', todo', hpc', hop', rfl⟩ := Task.at?_eq_some.mp ht'
    cases hpc'
    exact Task.at?_eq_some.mpr ⟨_, _, _, hpc, hp.received hop', rfl⟩
  next => cases h

/-- The same of an event and all the tasks. -/
theorem Engine.Moved.at {points : Op → Bool} (hp : Op.Initial points) {s : Engine} {e : Event}
    {sec : Section} {p : Parties} (h : s.Moved e sec p) {t' : Task} (ht' : t' ∈ p.tasks) {id : Nat}
    (hid : t'.at? points = some id) :
    (∃ t ∈ s.tasks, t.at? points = some id) ∨ id = s.shared.nextId := by
  obtain ⟨i, hi⟩ := List.mem_iff_getElem?.mp ht'
  rcases h.came hi with ⟨t, ht, hbecame⟩ | ⟨-, harrives⟩
  · have hmem := List.mem_of_getElem? ht
    cases hbecame with
    | stays => exact .inl ⟨_, hmem, hid⟩
    | moves hallows hmoved => exact (hmoved.at hp hid).imp_left fun h => ⟨_, hmem, h⟩
    | polls hbody hstep _ => exact .inl ⟨_, hmem, hid⟩
    | hands hpc =>
        obtain ⟨y, op', todo', hpc', hop', rfl⟩ := Task.at?_eq_some.mp hid
        cases hpc'
        exact .inl ⟨_, hmem, Task.at?_eq_some.mpr ⟨_, _, _, hpc, hp.handed hop', rfl⟩⟩
    | receives hresolver hreceive => exact .inl ⟨_, hmem, Task.at_receive hp hreceive hid⟩
  · obtain ⟨y, op', todo', hpc', hop', rfl⟩ := Task.at?_eq_some.mp hid
    cases harrives with
    | connection => cases hpc'
    | innerFirst hk hpc =>
        cases hpc'
        exact .inl ⟨_, List.mem_of_getElem? hk,
          Task.at?_eq_some.mpr ⟨_, _, _, hpc, hp.inner hop', rfl⟩⟩
    | innerNext hk hpc =>
        cases hpc'
        exact .inr rfl

/-! ## One forwarder -/

theorem Op.initial_hands : Op.Initial Op.hands where
  asked := Asked.hands
  answered h _ := h.hands
  refused h _ := Op.hands_of_awaits h
  received h := h
  handed _ := rfl
  inner _ := rfl

/-- The exchange a task forwards, or may yet hand to the first request in its tunnel. -/
abbrev Task.forwards? : Task → Option Nat := Task.at? Op.hands

/-- No two tasks forward one exchange. -/
def Engine.Single (s : Engine) : Prop := SingleOwner Task.forwards? s.tasks

theorem Engine.Single.step {crypto : Crypto} {s s' : Engine} {e : Event} (hc : s.Consistent)
    (h : s.Single) (hstep : s.step crypto e = some s') : s'.Single := by
  obtain ⟨sec, p, hmoved, -, hparties⟩ := step_cases hstep
  rw [Single, hparties, Parties.log_tasks]
  have hfree : ∀ t ∈ s.tasks, t.forwards? ≠ some s.shared.nextId := by
    intro t ht hforwards
    obtain ⟨destination, hserves⟩ := Task.serves_of_at hforwards
    exact absurd (hc.fresh _ (hc.served t ht _ _ hserves)) (Nat.lt_irrefl _)
  cases hmoved with
  | lifecycle hlife =>
      rcases (outlives_lifecycle hlife).tasks with heq | ⟨listening, -, -, heq⟩
      · exact heq ▸ h
      · exact heq ▸ h.append_one fun _ hv => nomatch hv
  | task ht hallows hmoved =>
      refine h.set ht fun id hid => (hmoved.at Op.initial_hands hid).imp_right ?_
      rintro rfl
      exact hfree
  | body ht hbody hstep _ => exact h.set ht fun id hid => .inl hid
  | innerFirst ht hpc =>
      refine h.hand_over ht rfl ?_
      rw [Task.forwards?, Task.at?, Task.at?, hpc]
      rfl
  | innerNext ht hpc =>
      refine (h.set ht fun id hid => .inl hid).append_one ?_
      rintro id hid t ht' hforwards
      cases hid
      rcases List.mem_or_eq_of_mem_set ht' with ht' | rfl
      · exact hfree t ht' hforwards
      · exact hfree _ (List.mem_of_getElem? ht) hforwards
  | receive hresolver ht hreceive =>
      exact h.set ht fun id hid => .inl (Task.at_receive Op.initial_hands hreceive hid)
  | _ => exact h

/-- In every reachable state an exchange has one forwarder at most. -/
theorem Engine.single {crypto : Crypto} {s : Engine} (h : (engine crypto).Reachable s) :
    s.Single :=
  h.invariant_along SingleOwner.nil fun hr hs _ hstep => hs.step (consistent hr) hstep

end SippinSoda
