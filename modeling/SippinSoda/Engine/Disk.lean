import SippinSoda.BudgetKeys
import SippinSoda.Engine.Announcements
import SippinSoda.Engine.Retention

/-!
# The disk

The engine's state points to two body stores that share a budget. Here both run together: a section
that inserts a body is the insertion of a store, and one that removes bodies removes their entries;
between these steps all that works on the stores goes on by itself.

* **removes** — the bodies a section takes out of the stores;
* **Disk.step** — one step of the engine, or of what works on the stores;
* **Agrees** — the stores have entries for the bodies the engine knows of, and no others;
* **Unstored** — nobody has stored the response of an exchange before its forwarder does, so no
  recording replaces another;
* **disk_holds_retained_bodies** — what the budget is used for when all is quiet.
-/

namespace SippinSoda

open Ledger

/-! ## Bodies in the state -/

/-- The exchanges whose bodies a store has. -/
def State.bodies (s : State) : Budget.Side → List Nat
  | .request => s.requestBodies
  | .response => s.responseBodies

/-- The body a section inserts. -/
def Section.inserts? : Section → Option (Budget.Side × Nat)
  | .insertRequest id => some (.request, id)
  | .insertResponse id => some (.response, id)
  | _ => none

/-- What goes with evicted captures. -/
def bodiesOf (captures : List Capture) : List (Budget.Side × Nat) :=
  captures.flatMap fun c => [(.request, c.id), (.response, c.id)]

/-- The bodies a section removes; Clear removes all that are stored. -/
def State.removes (s : State) (stored : List (Budget.Side × Nat)) :
    Section → List (Budget.Side × Nat)
  | .begin _ _ _ _ => if s.traffic.length = s.limit then bodiesOf (s.traffic.take 1) else []
  | .start settings _ => bodiesOf (s.traffic.take (s.traffic.length - settings.limit))
  | .removeRequest id => [(.request, id)]
  | .removeResponse id => [(.response, id)]
  | .clear => stored
  | _ => []

theorem mem_bodiesOf {captures : List Capture} {side : Budget.Side} {id : Nat} :
    (side, id) ∈ bodiesOf captures ↔ ∃ c ∈ captures, c.id = id := by
  unfold bodiesOf
  rw [List.mem_flatMap]
  refine exists_congr fun c => and_congr_right fun _ => ?_
  cases side <;> simp [eq_comm]

section Bodies

variable {s : State} {now : Nat} {sec : Section} {side : Budget.Side} {id : Nat}

theorem State.mem_forget_bodies {id' : Nat} :
    id ∈ (s.forget id').bodies side ↔ id ∈ s.bodies side ∧ id ≠ id' := by
  cases side
  · show id ∈ s.requestBodies.filter _ ↔ _
    rw [List.mem_filter, decide_eq_true_eq]
    rfl
  · show id ∈ s.responseBodies.filter _ ↔ _
    rw [List.mem_filter, decide_eq_true_eq]
    rfl

theorem State.mem_evict_bodies :
    id ∈ s.evict.bodies side ↔ id ∈ s.bodies side ∧ ∀ c ∈ s.traffic.take 1, c.id ≠ id := by
  unfold State.evict
  cases htraffic : s.traffic with
  | nil => cases side <;> simp [State.bodies]
  | cons c cs =>
      have hforget : id ∈ (s.forget c.id).bodies side ↔ id ∈ s.bodies side ∧ id ≠ c.id :=
        State.mem_forget_bodies
      rw [List.take_succ_cons, List.take_zero]
      simp only [List.mem_singleton, forall_eq]
      rw [ne_comm]
      exact hforget

theorem State.mem_evictMany_bodies (n : Nat) :
    ∀ {s : State}, id ∈ (s.evictMany n).bodies side ↔
      id ∈ s.bodies side ∧ ∀ c ∈ s.traffic.take n, c.id ≠ id := by
  induction n with
  | zero => intro s; simp [State.evictMany]
  | succ n ih =>
      intro s
      show id ∈ (s.evict.evictMany n).bodies side ↔ _
      rw [ih, State.mem_evict_bodies, State.evict_traffic]
      cases s.traffic with
      | nil => simp
      | cons c cs => simp [and_assoc]

/-- What a section leaves of the bodies, if it inserts none. -/
theorem State.mem_apply_bodies {stored : List (Budget.Side × Nat)} (hsec : sec.inserts? = none)
    (hstored : id ∈ s.bodies side → (side, id) ∈ stored) :
    id ∈ (s.apply now sec).bodies side ↔
      id ∈ s.bodies side ∧ (side, id) ∉ s.removes stored sec := by
  have hnone {captures : List Capture} :
      (∀ c ∈ captures, c.id ≠ id) ↔ (side, id) ∉ bodiesOf captures := by
    rw [mem_bodiesOf, not_exists]
    exact forall_congr' fun c => not_and.symm
  cases sec with
  | begin request destination clientProfileId replayOf =>
      have hroom : id ∈ s.makeRoom.bodies side ↔ id ∈ s.bodies side ∧
          (side, id) ∉ s.removes stored (.begin request destination clientProfileId replayOf) := by
        unfold State.makeRoom State.removes
        split
        · rw [State.mem_evict_bodies, hnone]
        · simp
      cases side <;> exact hroom
  | start settings address =>
      have hevict : id ∈ ((s.configured settings).evictMany
          (s.traffic.length - settings.limit)).bodies side ↔ _ := State.mem_evictMany_bodies _
      rw [hnone] at hevict
      cases side <;> exact hevict
  | clear =>
      refine iff_of_false ?_ fun h => h.2 (hstored h.1)
      cases side <;> exact List.not_mem_nil
  | removeRequest id' =>
      cases side
      · show id ∈ s.requestBodies.filter _ ↔ _
        simp [State.bodies, State.removes]
      · simp [State.bodies, State.removes, State.apply]
  | removeResponse id' =>
      cases side
      · simp [State.bodies, State.removes, State.apply]
      · show id ∈ s.responseBodies.filter _ ↔ _
        simp [State.bodies, State.removes]
  | insertRequest id' => cases hsec
  | insertResponse id' => cases hsec
  | _ =>
      cases side
      · exact (and_iff_left List.not_mem_nil).symm
      · exact (and_iff_left List.not_mem_nil).symm

theorem State.mem_insert_bodies {key : Budget.Side × Nat} (hsec : sec.inserts? = some key) :
    id ∈ (s.apply now sec).bodies side ↔ id ∈ s.bodies side ∨ (side, id) = key := by
  cases sec with
  | insertRequest id' =>
      cases hsec
      cases side
      · show id ∈ id' :: s.requestBodies.filter _ ↔ _
        simp [State.bodies]
        tauto
      · simp [State.bodies, State.apply]
  | insertResponse id' =>
      cases hsec
      cases side
      · simp [State.bodies, State.apply]
      · show id ∈ id' :: s.responseBodies.filter _ ↔ _
        simp [State.bodies]
        tauto
  | _ => cases hsec

end Bodies

/-! ## One recording -/

/-- Before the response body is stored, if it will be. -/
def Op.unstored : Op → Bool
  | .checking _ _ | .closing _ _ _ | .emptying _ | .returned _ | .refused _ => false
  | op => op.hands

theorem Op.unstored_of_early {op : Op} (hearly : op.early = true) (hhands : op.hands = true) :
    op.unstored = true := by
  cases op <;> first | exact hhands | cases hearly

theorem Op.hands_of_unstored {op : Op} (h : op.unstored = true) : op.hands = true := by
  cases op <;> first | rfl | exact h

theorem unstored_answerStep {http2 : Bool} {s : State} {x : Handling} {seen : Seen} {op : Op}
    {a : Answer} {m : Move} (h : answerStep http2 s x seen op a = some m)
    (hop : m.op.unstored = true) : op.unstored = true := by
  cases op with
  | checking upstream response =>
      cases a <;> cases h
      cases hop
  | closing upstream response tap =>
      cases a <;> simp only [answerStep, reduceCtorEq] at h
      split at h
      · cases h
        cases hop
      · split at h <;> cases h <;> cases hop
  | emptying response =>
      cases a <;> cases h
      cases hop
  | returned response =>
      simp only [answerStep] at h
      split at h
      · cases h
      · split at h <;> cases h <;> cases hop
  | refused response => cases h
  | ended => cases h
  | serving authority route http2 first => cases h
  | _ => rfl

/-- Once its body is stored an operation does not come back to such a point. -/
theorem unstored_step {proxy : SocketAddr} {tls : Option ProxyTlsInterception} {http2 : Bool}
    {s : State} {x : Handling} {seen : Seen} {op : Op} {a : Answer} {m : Move}
    (h : op.step proxy tls http2 s x seen a = some m) (hop : m.op.unstored = true) :
    op.unstored = true := by
  have hearly (hasked : Asked seen op m) : op.unstored = true :=
    Op.unstored_of_early hasked.early (hasked.hands (Op.hands_of_unstored hop))
  unfold Op.step at h
  split at h
  next htunnel =>
    cases h
    exact hearly (asked_tunnel htunnel)
  next =>
    split at h
    next hsend =>
      cases h
      exact hearly (asked_send hsend)
    next => exact unstored_answerStep h hop

theorem Task.unstored_step {crypto : Crypto} {s : State} {now k : Nat} {t t' : Task} {a : Answer}
    {sec : Section} (h : t.step crypto s now k a = some (sec, t')) {id : Nat}
    (hid : t'.at? Op.unstored = some id) : t.at? Op.unstored = some id ∨ id = s.nextId := by
  have hmoved := Task.step_cases h
  obtain ⟨y, op', todo', hpc', hop', rfl⟩ := Task.at?_eq_some.mp hid
  unfold Task.step at h
  split at h
  next x op errand todo hpc =>
    split at h <;> cases h
    cases hpc'
    exact .inl (Task.at?_eq_some.mpr ⟨_, _, _, hpc, hop', rfl⟩)
  next x op hpc =>
    split at h
    · split at h <;> cases h
      cases hpc'
    · split at h
      · split at h <;> cases h
        cases hpc'
        cases hop'
      · obtain ⟨m, hm, heq⟩ := Option.map_eq_some_iff.mp h
        cases heq
        cases hpc'
        have hop := SippinSoda.unstored_step hm hop'
        exact .inl (Task.at?_eq_some.mpr ⟨_, _, _, hpc, hop, rfl⟩)
  next hcons hnil =>
    refine .inr ?_
    cases hmoved with
    | errand hpc => exact absurd hpc (hcons _ _ _ _)
    | deadline hpc => exact absurd hpc (hnil _ _)
    | asked hpc => exact absurd hpc (hnil _ _)
    | answered hpc => exact absurd hpc (hnil _ _)
    | begin =>
        cases hpc'
        rfl
    | _ => cases hpc'

/-- The step of a task that inserts a response body. -/
theorem Task.Moved.inserts {s : State} {now k : Nat} {t t' : Task} {a : Answer} {id : Nat}
    (h : t.Moved s now k a (.insertResponse id) t') :
    ∃ x op, t.pc = .serving x op [] ∧ x.id = id ∧
      ((∃ upstream response, op = .recording upstream response ∧ a = .recorded none) ∨
        a = .stored none) ∧
      ∃ op' todo, t'.pc = .serving x op' todo ∧ op'.hands = true ∧ op'.unstored = false := by
  generalize hsec : Section.insertResponse id = sec at h
  cases h with
  | errand hpc =>
      rename_i errand _
      cases errand <;> cases hsec
  | asked hpc hstep hasked =>
      rcases Act.section_of_mild (Act.mild_of_quiet hasked.act) k _ with heq | ⟨c, -, heq⟩ <;>
        cases hsec.trans heq
  | answered hpc hanswered =>
      cases hanswered with
      | stored response =>
          cases hsec
          exact ⟨_, _, hpc, rfl, .inr rfl, _, _, rfl, rfl, rfl⟩
      | recorded upstream response =>
          cases hsec
          exact ⟨_, _, hpc, rfl, .inl ⟨_, _, rfl, rfl⟩, _, _, rfl, rfl, rfl⟩
      | _ => cases hsec
  | admits _ hpc hsec' => rcases hsec' with rfl | ⟨token, rfl⟩ <;> cases hsec
  | unauthorized hpc hsec' => rcases hsec' with rfl | ⟨token, rfl⟩ <;> cases hsec
  | _ => cases hsec

theorem Engine.Moved.inserts {s : Engine} {e : Event} {p : Parties} {id : Nat}
    (h : s.Moved e (.insertResponse id) p) :
    ∃ k a t t', e = .task k a ∧ s.tasks[k]? = some t ∧ p.tasks[k]? = some t' ∧
      t.Moved s.shared s.clock k a (.insertResponse id) t' := by
  rcases h.tame with htame | htask | ⟨_, _, _, _, _, _, _, hstep⟩
  · cases htame
  · exact htask
  · rcases StoreTask.step_insertRequest hstep with htame | hsec
    · cases htame
    · cases hsec

/-- Request bodies are inserted by store tasks. -/
theorem Engine.Moved.inserts_request {s : Engine} {e : Event} {p : Parties} {id : Nat}
    (h : s.Moved e (.insertRequest id) p) : ∃ k error, e = .store k error := by
  rcases h.tame with htame | ⟨k, a, t, t', -, -, -, hm⟩ | ⟨k, error, _, _, rfl, -⟩
  · cases htame
  · rcases hm.tame with htame | ⟨x, op, -, ⟨_, _, _, _, _, _, _, hsec, _⟩ | ⟨_, _, _, hsec, _⟩ |
      ⟨_, _, _, hsec⟩⟩
    · cases htame
    all_goals cases hsec
  · exact ⟨k, error, rfl⟩

/-- A task at such a point was at one, or begins its exchange. -/
theorem Engine.unstored_came {crypto : Crypto} {s : Engine} {e : Event} {sec : Section}
    {p : Parties} (h : s.move crypto e = some (sec, p)) {t' : Task} (ht' : t' ∈ p.tasks) {id : Nat}
    (hid : t'.at? Op.unstored = some id) :
    (∃ t ∈ s.tasks, t.at? Op.unstored = some id) ∨ id = s.shared.nextId := by
  obtain ⟨i, hi⟩ := List.mem_iff_getElem?.mp ht'
  rcases (moved_of_move h).came hi with ⟨t, ht, hbecame⟩ | ⟨-, harrives⟩
  · have hmem := List.mem_of_getElem? ht
    cases hbecame with
    | stays => exact .inl ⟨_, hmem, hid⟩
    | moves =>
        obtain ⟨u, u', hu, hstep, rfl⟩ := Engine.move_task h
        rcases SingleOwner.getElem?_set_cases hi with ⟨-, rfl⟩ | ⟨hne, -⟩
        · exact (Task.unstored_step hstep hid).imp_left
            fun hold => ⟨u, List.mem_of_getElem? hu, hold⟩
        · exact absurd rfl hne
    | polls => exact .inl ⟨_, hmem, hid⟩
    | hands hpc =>
        obtain ⟨y, op', todo', hpc', hop', -⟩ := Task.at?_eq_some.mp hid
        cases hpc'
        cases hop'
    | receives hresolver hreceive =>
        unfold Task.receive at hreceive
        split at hreceive <;> cases hreceive
        next hpc =>
          obtain ⟨y, op', todo', hpc', -, rfl⟩ := Task.at?_eq_some.mp hid
          cases hpc'
          exact .inl ⟨_, hmem, Task.at?_eq_some.mpr ⟨_, _, _, hpc, rfl, rfl⟩⟩
  · obtain ⟨y, op', todo', hpc', hop', rfl⟩ := Task.at?_eq_some.mp hid
    cases harrives with
    | connection => cases hpc'
    | innerFirst hk hpc =>
        cases hpc'
        exact .inl ⟨_, List.mem_of_getElem? hk, Task.at?_eq_some.mpr ⟨_, _, _, hpc, rfl, rfl⟩⟩
    | innerNext hk hpc =>
        cases hpc'
        exact .inr rfl

/-- The response bodies that are stored are of exchanges that have begun, and that nobody is still
to store. -/
structure Engine.Unstored (s : Engine) : Prop where
  begun : ∀ id ∈ s.shared.responseBodies, id < s.shared.nextId
  unstored : ∀ t ∈ s.tasks, ∀ id ∈ s.shared.responseBodies, t.at? Op.unstored ≠ some id

theorem Engine.Unstored.step {crypto : Crypto} {s s' : Engine} {e : Event} (hc : s.Consistent)
    (hsingle : s'.Single) (h : s.Unstored) (hstep : s.step crypto e = some s') : s'.Unstored := by
  obtain ⟨⟨sec, p⟩, hmove, rfl⟩ := Option.map_eq_some_iff.mp hstep
  have hnext : s.shared.nextId ≤ (s.shared.apply s.clock sec).nextId := by
    rw [State.apply_nextId]
    exact Nat.le_add_right _ _
  have hlt {id : Nat} (hid : id ∈ (s.shared.apply s.clock sec).responseBodies) :
      id < s.shared.nextId := by
    rcases State.mem_apply_responseBodies hid with ⟨hold, -⟩ | rfl
    · exact h.begun id hold
    · obtain ⟨k, a, t, t', -, ht, -, hm⟩ := (moved_of_move hmove).inserts
      obtain ⟨x, op, hpc, rfl, -⟩ := hm.inserts
      exact hc.fresh _ (hc.served t (List.mem_of_getElem? ht) _ _ ⟨x, op, [], hpc, rfl, rfl⟩)
  refine ⟨fun id hid => Nat.lt_of_lt_of_le (hlt hid) hnext, fun t' ht' id hid hpoint => ?_⟩
  have htasks : (p.log s.shared sec).tasks = p.tasks := Parties.log_tasks ..
  have hmem : t' ∈ p.tasks := htasks ▸ ht'
  rcases State.mem_apply_responseBodies hid with ⟨hold, -⟩ | rfl
  · rcases Engine.unstored_came hmove hmem hpoint with ⟨t, ht, hpoint⟩ | rfl
    · exact h.unstored t ht id hold hpoint
    · exact Nat.lt_irrefl _ (h.begun _ hold)
  · -- the task that has just inserted it is the only one that forwards the exchange
    obtain ⟨k, a, t, u, -, -, hu, hm⟩ := (moved_of_move hmove).inserts
    obtain ⟨x, op, hpc, rfl, -, op', todo, hpc', hands, hop'⟩ := hm.inserts
    obtain ⟨i, hi⟩ := List.mem_iff_getElem?.mp ht'
    obtain ⟨y, op, todo', hpcy, hop, hid'⟩ := Task.at?_eq_some.mp hpoint
    have hforwards : t'.forwards? = some x.id :=
      Task.at?_eq_some.mpr ⟨y, op, todo', hpcy, Op.hands_of_unstored hop, hid'⟩
    have hforwards' : u.forwards? = some x.id :=
      Task.at?_eq_some.mpr ⟨_, _, _, hpc', hands, rfl⟩
    have hu' : (p.log s.shared (.insertResponse x.id)).tasks[k]? = some u := by
      rw [Parties.log_tasks]
      exact hu
    cases hsingle hi hu' hforwards hforwards'
    cases hi.symm.trans hu'
    cases hpcy.symm.trans hpc'
    exact absurd hop (by rw [hop']; exact Bool.false_ne_true)

theorem Engine.unstored {crypto : Crypto} {s : Engine} (h : (engine crypto).Reachable s) :
    s.Unstored := by
  refine h.invariant_along ⟨fun id hid => ?_, fun t ht => ?_⟩ fun hr hs _ hstep =>
    hs.step (consistent hr) (single (.step hr trivial hstep)) hstep
  · cases hid
  · cases ht

/-! ## The engine and its stores -/

/-- The engine with the two stores its state points to. -/
structure Disk where
  engine : Engine
  stores : Budget.State

inductive DiskEvent where
  /-- A step of the engine that inserts no body. -/
  | engine (e : Event)
  /-- One that does, with the insertion of the store. -/
  | inserts (e : Event) (insertion : Budget.Event)
  /-- A step of what works on the stores. -/
  | stores (e : Budget.Event)
  deriving DecidableEq

/-- Does a step of the engine that inserts a body insert it that way: has `record` returned, or a
store operation? -/
def Event.insertedBy : Event → Budget.Event → Bool
  | .task _ (.recorded _), .record _ _ _ => true
  | .task _ (.stored _), .insert _ => true
  | .store _ _, .insert _ => true
  | _, _ => false

/-- One step of the engine or of the stores. -/
def Disk.step (crypto : Crypto) (d : Disk) : DiskEvent → Option Disk
  | .engine e => do
      let engine ← d.engine.step crypto e
      let sec := d.engine.section crypto e
      if sec.inserts?.isSome then none
      else
        let removed := d.engine.shared.removes d.stores.keys sec
        some ⟨engine, removed.foldl Budget.State.takeOut d.stores⟩
  | .inserts e insertion => do
      let engine ← d.engine.step crypto e
      let stores ← Budget.step d.stores insertion
      let key := insertion.inserts? d.stores
      if e.insertedBy insertion && (d.engine.section crypto e).inserts? = key then
        some ⟨engine, stores⟩
      else none
  | .stores e => do
      let stores ← Budget.step d.stores e
      if e.maps then none else some { d with stores := stores }

/-- A new engine, whose stores are empty. -/
def disk (crypto : Crypto) : Machine Disk DiskEvent where
  start := ⟨.default, Budget.start⟩
  step := Disk.step crypto

inductive Disk.Steps (crypto : Crypto) (d : Disk) : DiskEvent → Disk → Prop
  | engine {e engine} : d.engine.step crypto e = some engine →
      (d.engine.section crypto e).inserts? = none →
      Steps crypto d (.engine e) ⟨engine, (d.engine.shared.removes d.stores.keys
        (d.engine.section crypto e)).foldl Budget.State.takeOut d.stores⟩
  | inserts {e insertion engine stores key} : d.engine.step crypto e = some engine →
      Budget.step d.stores insertion = some stores → e.insertedBy insertion = true →
      (d.engine.section crypto e).inserts? = some key → insertion.inserts? d.stores = some key →
      Steps crypto d (.inserts e insertion) ⟨engine, stores⟩
  | stores {e stores} : Budget.step d.stores e = some stores → e.maps = false →
      Steps crypto d (.stores e) { d with stores := stores }

section Steps

variable {crypto : Crypto} {d d' : Disk} {e : DiskEvent}

/-- An insertion has a key. -/
theorem Event.key_of_insertedBy {e : Event} {insertion : Budget.Event} {s s' : Budget.State}
    (h : e.insertedBy insertion = true) (hstep : Budget.step s insertion = some s') :
    ∃ key, insertion.inserts? s = some key := by
  cases insertion with
  | record side id limit => exact ⟨_, rfl⟩
  | insert k =>
      cases Budget.step_moves hstep with
      | store hevent => rcases hevent with ⟨ok, h⟩ | h <;> cases h
      | insert hk => exact ⟨_, Budget.Event.inserts?_insert hk⟩
      | touch he htouched => cases htouched
  | _ => cases e <;> first | cases h | (rename_i a; cases a <;> cases h)

theorem Disk.steps_of_step (h : d.step crypto e = some d') : d.Steps crypto e d' := by
  cases e with
  | engine e =>
      obtain ⟨engine, hstep, hrest⟩ := Option.bind_eq_some_iff.mp h
      dsimp only at hrest
      split at hrest
      · cases hrest
      next hnone =>
        cases hrest
        exact .engine hstep (by simpa using hnone)
  | inserts e insertion =>
      obtain ⟨engine, hstep, hrest⟩ := Option.bind_eq_some_iff.mp h
      obtain ⟨stores, hinsert, hrest⟩ := Option.bind_eq_some_iff.mp hrest
      dsimp only at hrest
      split at hrest
      next hcond =>
        cases hrest
        rw [Bool.and_eq_true, decide_eq_true_eq] at hcond
        obtain ⟨key, hkey⟩ := Event.key_of_insertedBy hcond.1 hinsert
        exact .inserts hstep hinsert hcond.1 (hcond.2.trans hkey) hkey
      · cases hrest
  | stores e =>
      obtain ⟨stores, hstep, hrest⟩ := Option.bind_eq_some_iff.mp h
      split at hrest
      · cases hrest
      next hmaps =>
        cases hrest
        exact .stores hstep (by simpa using hmaps)

/-- The engine runs by itself. -/
theorem Disk.reach_engine {guard : Disk → DiskEvent → Prop} (h : (disk crypto).Reach guard d) :
    (SippinSoda.engine crypto).Reachable d.engine := by
  refine h.project (n := SippinSoda.engine crypto) Disk.engine rfl fun hstep => ?_
  cases Disk.steps_of_step hstep with
  | engine hengine => exact .inr ⟨_, hengine⟩
  | inserts hengine => exact .inr ⟨_, hengine⟩
  | stores => exact .inl rfl

/-- The stores run by themselves, removals included. -/
theorem Disk.Steps.reach_stores {guard : Budget.State → Budget.Event → Prop}
    (hremove : ∀ s i, guard s (.remove i))
    (hguard : ∀ b, e = .stores b ∨ (∃ event, e = .inserts event b) → guard d.stores b)
    (h : d.Steps crypto e d') (hstores : Budget.machine.Reach guard d.stores) :
    Budget.machine.Reach guard d'.stores := by
  cases h with
  | engine => exact (Budget.stored_foldl_takeOut hremove _ hstores).1
  | inserts _ hinsert => exact .step hstores (hguard _ (.inr ⟨_, rfl⟩)) hinsert
  | stores hstep => exact .step hstores (hguard _ (.inl rfl)) hstep

theorem Disk.reachable_stores {guard : Disk → DiskEvent → Prop} (h : (disk crypto).Reach guard d) :
    Budget.machine.Reachable d.stores :=
  h.invariant (I := fun d => Budget.machine.Reachable d.stores) .start fun hs _ hstep =>
    (Disk.steps_of_step hstep).reach_stores (fun _ _ => trivial) (fun _ _ => trivial) hs

/-- Steps of the stores alone. -/
theorem Disk.runFrom_stores {stores : Budget.State} {events : List Budget.Event} :
    ∀ {d : Disk}, (∀ event ∈ events, event.maps = false) →
      Budget.machine.runFrom d.stores events = some stores →
      (disk crypto).runFrom d (events.map .stores) = some { d with stores := stores } := by
  induction events with
  | nil =>
      intro d _ hrun
      cases hrun
      rfl
  | cons event events ih =>
      intro d hmaps hrun
      obtain ⟨next, hstep, hrest⟩ := Option.bind_eq_some_iff.mp hrun
      have hfirst : (disk crypto).step d (.stores event) = some { d with stores := next } := by
        show (Budget.step d.stores event).bind _ = _
        rw [show Budget.step d.stores event = some next from hstep]
        exact if_neg (by rw [hmaps event List.mem_cons_self]; exact Bool.false_ne_true)
      show ((disk crypto).step d (.stores event)).bind _ = _
      rw [hfirst]
      exact ih (d := { d with stores := next })
        (fun other hother => hmaps other (List.mem_cons_of_mem _ hother)) hrest

/-- How an insertion of the engine comes about. -/
theorem Engine.insertedBy_of_section {s s' : Engine} {event : Event} {key : Budget.Side × Nat}
    (hstep : s.step crypto event = some s') (hkey : (s.section crypto event).inserts? = some key) :
    (∀ k, event.insertedBy (.insert k) = true) ∨
      ∀ limit, event.insertedBy (.record key.1 key.2 limit) = true := by
  obtain ⟨p, hmoved, -, -⟩ := Engine.step_section hstep
  generalize s.section crypto event = sec at hmoved hkey
  cases sec with
  | insertRequest id =>
      obtain ⟨k, error, rfl⟩ := hmoved.inserts_request
      exact .inl fun _ => rfl
  | insertResponse id =>
      obtain ⟨k, a, t, t', rfl, -, -, hm⟩ := hmoved.inserts
      obtain ⟨x, op, -, -, ⟨upstream, response, -, rfl⟩ | rfl, -⟩ := hm.inserts
      · exact .inr fun _ => rfl
      · exact .inl fun _ => rfl
  | _ => cases hkey

theorem Disk.step_inserts {s' : Engine} {stores : Budget.State} {event : Event}
    {insertion : Budget.Event} {key : Budget.Side × Nat}
    (hengine : d.engine.step crypto event = some s')
    (hstores : Budget.step d.stores insertion = some stores)
    (hby : event.insertedBy insertion = true)
    (hsec : (d.engine.section crypto event).inserts? = some key)
    (hkey : insertion.inserts? d.stores = some key) :
    (disk crypto).step d (.inserts event insertion) = some ⟨s', stores⟩ := by
  show (d.engine.step crypto event).bind _ = _
  rw [hengine]
  show (Budget.step d.stores insertion).bind _ = _
  rw [hstores]
  refine if_pos ?_
  rw [Bool.and_eq_true, decide_eq_true_eq]
  exact ⟨hby, hsec.trans hkey.symm⟩

/-- **The stores keep the engine from nothing**: it reaches the same states with them as by
itself. -/
theorem Disk.engine_reachable_iff {s : Engine} :
    (SippinSoda.engine crypto).Reachable s ↔ ∃ d, (disk crypto).Reachable d ∧ d.engine = s := by
  refine ⟨fun h => ?_, ?_⟩
  · induction h with
    | start => exact ⟨_, .start, rfl⟩
    | @step s s' event _ _ hstep ih =>
        obtain ⟨d, hd, rfl⟩ := ih
        have hengine : d.engine.step crypto event = some s' := hstep
        cases hkey : (d.engine.section crypto event).inserts? with
        | none =>
            have hnext : ∃ stores, (disk crypto).step d (.engine event) = some ⟨s', stores⟩ := by
              refine ⟨(d.engine.shared.removes d.stores.keys
                (d.engine.section crypto event)).foldl Budget.State.takeOut d.stores, ?_⟩
              show (d.engine.step crypto event).bind _ = _
              rw [hengine]
              exact if_neg (by rw [hkey]; exact Bool.false_ne_true)
            obtain ⟨stores, hnext⟩ := hnext
            exact ⟨_, .step hd trivial hnext, rfl⟩
        | some key =>
            rcases Engine.insertedBy_of_section hengine hkey with hby | hby
            · obtain ⟨events, stores, k, hrun, hmaps, hinserts, henabled⟩ :=
                Budget.exists_insertion (Disk.reachable_stores hd) key.1 key.2
              obtain ⟨stores', hinsert⟩ := Option.isSome_iff_exists.mp henabled
              have hstores := hd.runFrom (Machine.meets_true _ _)
                (Disk.runFrom_stores hmaps hrun)
              exact ⟨_, .step hstores trivial (Disk.step_inserts (d := { d with stores := stores })
                hengine hinsert (hby k) hkey hinserts), rfl⟩
            · exact ⟨_, .step hd trivial
                (Disk.step_inserts hengine rfl (hby 0) hkey rfl), rfl⟩
  · rintro ⟨d, hd, rfl⟩
    exact Disk.reach_engine hd

/-! ## The stores and the state agree -/

/-- The stores have entries for the bodies that the state has, and no others. -/
def Disk.Agrees (d : Disk) : Prop :=
  ∀ side id, id ∈ d.engine.shared.bodies side ↔ d.stores.Stored (side, id)

theorem Disk.Agrees.step (hstores : Budget.machine.Reachable d.stores) (h : d.Agrees)
    (hstep : d.Steps crypto e d') : d'.Agrees := by
  intro side id
  cases hstep with
  | @engine e engine hengine hnone =>
      obtain ⟨p, -, hshared, -⟩ := Engine.step_section hengine
      have hkeys : id ∈ d.engine.shared.bodies side → (side, id) ∈ d.stores.keys := by
        intro hid
        exact Budget.State.mem_keys.mpr ((h side id).mp hid)
      show id ∈ engine.shared.bodies side ↔ _
      rw [hshared, State.mem_apply_bodies hnone hkeys, h side id]
      exact ((Budget.stored_foldl_takeOut (fun _ _ => trivial) _ hstores).2 (side, id)).symm
  | @inserts e insertion engine stores key hengine hinsert hby hsec hkey =>
      obtain ⟨p, -, hshared, -⟩ := Engine.step_section hengine
      have hremoves : insertion.removes? d.stores = none := by
        cases insertion <;> first | rfl | cases hkey
      show id ∈ engine.shared.bodies side ↔ stores.Stored (side, id)
      rw [hshared, State.mem_insert_bodies hsec, h side id, Budget.stored_step hstores hinsert,
        hremoves, hkey, Option.some.injEq, eq_comm (a := key)]
      simp
  | @stores e stores hstep hmaps =>
      show id ∈ d.engine.shared.bodies side ↔ stores.Stored (side, id)
      obtain ⟨hinserts, hremoves⟩ := Budget.Event.keys_of_not_maps (s := d.stores) hmaps
      rw [h side id, Budget.stored_step hstores hstep, hinserts, hremoves]
      simp

theorem Disk.agrees {guard : Disk → DiskEvent → Prop} (h : (disk crypto).Reach guard d) :
    d.Agrees := by
  refine h.invariant_along (I := Disk.Agrees) (fun side id => iff_of_false ?_ ?_)
    fun hr hs _ hstep => hs.step (Disk.reachable_stores hr) (Disk.steps_of_step hstep)
  · cases side <;> exact List.not_mem_nil
  · rintro ⟨e, he, -⟩
    cases he

/-- **No recording replaces another**: the forwarder of an exchange alone stores its response. -/
theorem Disk.recordsOnce {guard : Disk → DiskEvent → Prop} (h : (disk crypto).Reach guard d)
    {event : Event} {insertion : Budget.Event}
    (hstep : d.Steps crypto (.inserts event insertion) d') :
    Budget.recordsOnce d.stores insertion = true := by
  cases hstep with
  | @inserts e insertion engine stores key hengine hinsert hby hsec hkey =>
      cases insertion with
      | record side id limit =>
          cases hkey
          obtain ⟨p, hmoved, -, -⟩ := Engine.step_section hengine
          generalize d.engine.section crypto event = sec at hmoved hsec
          have hfree : ¬ d.stores.Stored (side, id) := by
            cases sec with
            | insertRequest id' =>
                obtain ⟨k, error, rfl⟩ := hmoved.inserts_request
                cases hby
            | insertResponse id' =>
                cases hsec
                obtain ⟨k, a, t, t', rfl, ht, -, hm⟩ := hmoved.inserts
                obtain ⟨x, op, hpc, rfl, ⟨upstream, response, rfl, -⟩ | rfl, -⟩ := hm.inserts
                · intro hstored
                  have hid := (Disk.agrees h .response x.id).mpr hstored
                  exact (Engine.unstored (Disk.reach_engine h)).unstored t
                    (List.mem_of_getElem? ht) x.id hid
                    (Task.at?_eq_some.mpr ⟨x, _, _, hpc, rfl, rfl⟩)
                · cases hby
            | _ => cases hsec
          have hnone : Budget.find d.stores.entries side id = none := by
            refine Budget.find_eq_none.mpr fun entry hentry hstored => ?_
            exact hfree ⟨entry, hentry, hstored⟩
          show (Budget.find d.stores.entries side id == none) = true
          rw [hnone]
          rfl
      | _ => rfl

/-! ## What the budget is used for -/

/-- No body is stored for a capture that is gone, and no result of a store operation is lost. -/
def Disk.Keeps (d : Disk) : DiskEvent → Prop
  | .engine e | .inserts e _ => storesRetained d.engine e
  | .stores e => Budget.received d.stores e = true

instance (d : Disk) (e : DiskEvent) : Decidable (d.Keeps e) :=
  match e with
  | .engine e | .inserts e _ => inferInstanceAs (Decidable (storesRetained d.engine e))
  | .stores e => inferInstanceAs (Decidable (Budget.received d.stores e = true))

theorem Disk.reach_retained (h : (disk crypto).Reach Disk.Keeps d) :
    (SippinSoda.engine crypto).Reach storesRetained d.engine := by
  induction h with
  | start => exact .start
  | step _ hkeeps hstep ih =>
      cases Disk.steps_of_step hstep with
      | engine hengine => exact .step ih hkeeps hengine
      | inserts hengine => exact .step ih hkeeps hengine
      | stores => exact ih

/-- The steps of the stores, with what the run asks of those that are not the engine's. -/
theorem Disk.reach_stores {guard : Disk → DiskEvent → Prop}
    {accepts : Budget.State → Budget.Event → Prop} (hremove : ∀ s i, accepts s (.remove i))
    (hinsert : ∀ s b key, b.inserts? s = some key → accepts s b)
    (hguard : ∀ d b, guard d (.stores b) → accepts d.stores b)
    (h : (disk crypto).Reach guard d) :
    Budget.machine.Reach (fun s b => accepts s b ∧ Budget.recordsOnce s b = true) d.stores := by
  refine h.invariant_along (I := fun d => Budget.machine.Reach
    (fun s b => accepts s b ∧ Budget.recordsOnce s b = true) d.stores)
    .start fun {d _ e} hr hs hmeets hstep => ?_
  have hsteps := Disk.steps_of_step hstep
  refine hsteps.reach_stores (fun s i => ⟨hremove s i, rfl⟩) ?_ hs
  rintro b (rfl | ⟨event, rfl⟩)
  · refine ⟨hguard d b hmeets, ?_⟩
    cases hsteps with
    | stores _ hmaps => cases b <;> first | rfl | cases hmaps
  · refine ⟨?_, Disk.recordsOnce hr hsteps⟩
    cases hsteps with
    | inserts _ _ _ _ hkey => exact hinsert _ _ _ hkey

theorem Disk.reach_received (h : (disk crypto).Reach Disk.Keeps d) :
    Budget.machine.Reach
      (fun s b => Budget.received s b = true ∧ Budget.recordsOnce s b = true) d.stores := by
  refine Disk.reach_stores (fun _ _ => rfl) (fun s b key hkey => ?_) (fun _ _ hkeeps => hkeeps) h
  cases b <;> first | rfl | cases hkey

/-- Where nobody is still looking for its capture, every stored body has one. -/
theorem Disk.retained_of_stored (h : (disk crypto).Reach Disk.Keeps d) (hquiet : d.engine.Quiet)
    {side : Budget.Side} {id : Nat} (hstored : d.stores.Stored (side, id)) :
    d.engine.shared.Retained id := by
  have hretains := Engine.retains (Disk.reach_retained h)
  have hid := (Disk.agrees h side id).mpr hstored
  cases side with
  | request =>
      rcases hretains.requests id hid with hretained | ⟨t, ht, hrechecks⟩
      · exact hretained
      · cases (hquiet.2 t ht).symm.trans hrechecks
  | response =>
      rcases hretains.responses id hid with hretained | ⟨t, ht, hrechecks⟩
      · exact hretained
      · cases (hquiet.1 t ht).symm.trans (Task.rechecks?_of_rechecks hrechecks)

theorem Disk.lost (h : (disk crypto).Reach Disk.Keeps d) : d.stores.lost = 0 :=
  (Disk.reach_received h).invariant (I := fun s => s.lost = 0) rfl fun hs hguard hstep =>
    (Budget.lost_of_received hguard.1 (Budget.step_cases hstep)).trans hs

end Steps

/-- **The stores refine the state.** With its stores the engine reaches the states it reaches by
itself; in each the stores have exactly the bodies that the state knows of, and they have come there
by a run in which no recording replaces a body. -/
theorem stores_refine_the_state {crypto : Crypto} :
    (∀ s, (engine crypto).Reachable s ↔ ∃ d, (disk crypto).Reachable d ∧ d.engine = s) ∧
    ∀ d, (disk crypto).Reachable d →
      (∀ side id, id ∈ d.engine.shared.bodies side ↔ d.stores.Stored (side, id)) ∧
      Budget.machine.Reach (fun s b => Budget.recordsOnce s b = true) d.stores := by
  refine ⟨fun s => Disk.engine_reachable_iff, fun d hd => ⟨Disk.agrees hd, ?_⟩⟩
  have hstores : Budget.machine.Reach (fun s b => True ∧ Budget.recordsOnce s b = true) d.stores :=
    Disk.reach_stores (fun _ _ => trivial) (fun _ _ _ _ => trivial) (fun _ _ _ => trivial) hd
  exact hstores.mono fun _ _ hguard => hguard.2

/-- **The disk holds the bodies of the retained captures.** Unless a body is stored for a capture
that is gone or the result of a store operation is lost: once nobody works on the stores, every body
in them belongs to a capture that is still there, and the budget is used for the bodies of these
captures alone. -/
theorem disk_holds_retained_bodies {crypto : Crypto} {d : Disk}
    (h : (disk crypto).Reach Disk.Keeps d) (hengine : d.engine.Quiet)
    (hstores : d.stores.quiet = true) :
    (∀ side id, d.stores.Stored (side, id) → d.engine.shared.Retained id) ∧
      d.stores.used = total d.stores.held (d.engine.shared.traffic.map Capture.id) := by
  refine ⟨fun side id => Disk.retained_of_stored h hengine, ?_⟩
  have hbalance := Budget.quiet_balance
    ((Disk.reach_received h).mono fun _ _ hguard => hguard.2) hstores
  rw [Disk.lost h, Nat.add_zero] at hbalance
  rw [hbalance]
  have hnodup : (d.engine.shared.traffic.map Capture.id).Nodup :=
    (Engine.consistent (Disk.reach_engine h)).ordered.increasing.imp Nat.ne_of_lt
  refine (total_by_key hnodup fun e he hreserved => ?_).symm
  have hstore : e.inStore = true := by
    by_contra hout
    exact hreserved (if_neg hout)
  have hstored : d.stores.Stored (e.side, e.id) := ⟨e, he, Budget.Entry.key?_of_inStore hstore⟩
  exact State.retained_iff.mp (Disk.retained_of_stored h hengine hstored)

/-- The response of an exchange is replaced, and the two bytes of its body are stored. -/
def storedReplacement (task operation id : Nat) : List DiskEvent :=
  List.map .engine
      (answers task [.upstream (some ⟨200, [], false, []⟩), .go, .go, .go, .go, .go]) ++
    [.stores (.call ⟨.response, id, 2, 100, true⟩), .stores (.closure operation true),
      .stores (.closure operation true),
      .inserts (.task task (.stored none)) (.insert operation)] ++
    List.map .engine (answers task [.go, .go])

/-- With room for one capture, the second exchange evicts the first with its body. -/
def evictedBody : List DiskEvent :=
  List.map .engine (starting { mocking with captureLimit := 1 } ++ [.accept] ++
      answers 0 (untilSent (plainGet localhost) ++ [.go])) ++
    storedReplacement 0 0 1 ++
    List.map .engine ([.accept] ++ answers 1 (untilSent (plainGet localhost) ++ [.go])) ++
    List.map .stores [.step 1 .go, .step 1 .go, .step 1 .go] ++
    storedReplacement 1 2 2

theorem evicted_body_is_given_back :
    ∃ d, (disk .unused).run evictedBody = some d ∧ d.stores.used = 2 ∧
      d.engine.shared.traffic.map Capture.id = [2] ∧
      (∀ side id, d.stores.Stored (side, id) → d.engine.shared.Retained id) ∧
      d.stores.used = total d.stores.held [2] := by
  have hrun : ((disk .unused).run evictedBody).map (fun d =>
      (d.stores.used, d.engine.shared.traffic.map Capture.id, decide d.engine.Quiet,
        d.stores.quiet)) = some (2, [2], true, true) := by
    decide +kernel
  have hkeeps : (disk .unused).Meets Disk.Keeps (disk .unused).start evictedBody := by
    decide +kernel
  obtain ⟨d, hd, heq⟩ := Option.map_eq_some_iff.mp hrun
  obtain ⟨hused, hrest⟩ := Prod.mk.inj heq
  obtain ⟨hids, hrest⟩ := Prod.mk.inj hrest
  obtain ⟨hengine, hstores⟩ := Prod.mk.inj hrest
  obtain ⟨hretained, hbalance⟩ := disk_holds_retained_bodies
    (Machine.reach_of_run evictedBody hkeeps hd) (of_decide_eq_true hengine) hstores
  rw [hids] at hbalance
  exact ⟨d, hd, hused, hids, hretained, hbalance⟩

end SippinSoda
