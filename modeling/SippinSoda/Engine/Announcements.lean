import SippinSoda.Engine.Forwarder
import SippinSoda.Lib.Versioned

/-!
# No change of the snapshot stays unannounced

`Exchange::update` changes a capture without incrementing `revision`; whoever calls it holds a
reference to the exchange, and the drop of the last reference finishes the exchange once more,
with an increment. So a change is announced at the latest when the exchange is gone.

* **snapshot** — what clients read, and which sections change it;
* **holders** — who can still change a capture, and that an exchange with a holder is not dropped;
* **Due** — some exchange has its last increment before it;
* **clients** — who keeps the newest snapshot ends up with the last one.
-/

namespace SippinSoda

/-! ## Snapshots -/

/-- `Snapshot`. -/
structure Snapshot where
  revision : Nat
  status : EngineStatus
  /-- Newest first. -/
  traffic : List Capture
  deriving DecidableEq, Repr

/-- `ProxyEngine::snapshot`. -/
def State.snapshot (s : State) : Snapshot where
  revision := s.revision
  status := s.status
  traffic := s.traffic.reverse

/-- Does the section increment `revision`? -/
def Section.increments : Section → Bool
  | .begin _ _ _ _ | .announce | .openBreakpoint _ _ _ | .clear | .start _ _ | .stopped
  | .reject => true
  | _ => false

theorem State.evict_revision (s : State) : s.evict.revision = s.revision := by
  rw [State.evict]
  split <;> rfl

theorem State.evictMany_revision (n : Nat) : ∀ s : State, (s.evictMany n).revision = s.revision := by
  induction n with
  | zero => exact fun _ => rfl
  | succ n ih => exact fun s => (ih s.evict).trans s.evict_revision

theorem State.apply_revision (s : State) (now : Nat) (sec : Section) :
    (s.apply now sec).revision = s.revision + sec.increments.toNat := by
  cases sec with
  | begin request destination clientProfileId replayOf =>
      show s.makeRoom.revision + 1 = _
      rw [State.makeRoom]
      split
      · rw [State.evict_revision]
        rfl
      · rfl
  | start settings address =>
      show ((s.configured settings).evictMany _).revision + 1 = _
      rw [State.evictMany_revision]
      rfl
  | _ => rfl

/-- An update of a capture that is gone changes nothing. -/
theorem updateFirst_of_gone {id : Nat} (f : Capture → Capture) :
    ∀ {cs : List Capture}, (∀ c ∈ cs, c.id ≠ id) → updateFirst id f cs = cs := by
  intro cs
  induction cs with
  | nil => exact fun _ => rfl
  | cons c cs ih =>
      intro h
      rw [updateFirst, if_neg (h c List.mem_cons_self),
        ih fun d hd => h d (List.mem_cons_of_mem _ hd)]

/-- **What changes the snapshot** without an increment is the update of a capture that is there. -/
theorem State.apply_snapshot {s : State} {now : Nat} {sec : Section} (h : sec.increments = false) :
    (s.apply now sec).snapshot = s.snapshot ∨
      ∃ id change, sec = .update id change ∧ s.Retained id := by
  cases sec with
  | update id change =>
      by_cases hretained : s.Retained id
      · exact .inr ⟨id, change, rfl, hretained⟩
      · refine .inl ?_
        have hgone : ∀ c ∈ s.traffic, c.id ≠ id := fun c hc hid => hretained ⟨c, hc, hid⟩
        show Snapshot.mk _ _ (updateFirst id _ s.traffic).reverse = _
        rw [updateFirst_of_gone _ hgone]
        rfl
  | begin => cases h
  | announce => cases h
  | openBreakpoint => cases h
  | clear => cases h
  | start => cases h
  | stopped => cases h
  | reject => cases h
  | _ => exact .inl rfl

/-- Without an increment no capture comes or goes. -/
theorem State.apply_retained {s : State} {now id : Nat} {sec : Section}
    (h : sec.increments = false) : (s.apply now sec).Retained id ↔ s.Retained id := by
  rw [State.retained_iff, State.retained_iff]
  cases sec with
  | update id' change =>
      rw [show (s.apply now (.update id' change)).traffic.map Capture.id = _ from
        State.update_ids fun c => c.apply_id now change]
  | begin => cases h
  | announce => cases h
  | openBreakpoint => cases h
  | clear => cases h
  | start => cases h
  | stopped => cases h
  | reject => cases h
  | _ => rfl

/-! ## Holders -/

/-- An operation that can still move holds its exchange. -/
theorem Op.holdsExchange_of_step {proxy : SocketAddr} {tls : Option ProxyTlsInterception}
    {http2 : Bool} {s : State} {x : Handling} {seen : Seen} {op : Op} {a : Answer} {m : Move}
    (h : op.step proxy tls http2 s x seen a = some m) : op.holdsExchange = true := by
  cases op with
  | ended => cases a <;> cases h
  | refused response => cases a <;> cases h
  | returned response =>
      by_cases hbody : response.body = .upstream
      · exact decide_eq_true hbody
      · have hnone : Op.step proxy tls http2 s x seen (.returned response) a = none := by
          cases a <;> exact if_pos hbody
        cases hnone.symm.trans h
  | _ => rfl

theorem Op.holdsExchange_of_awaits {op : Op} (h : op.awaits = true) : op.holdsExchange = true := by
  cases op <;> first | rfl | cases h

theorem Task.holds_iff {t : Task} {id : Nat} : t.holds id = true ↔
    (∃ x op todo, t.pc = .serving x op todo ∧ x.id = id ∧
      (op.holdsExchange = true ∨ todo ≠ [])) ∨
    ∃ party, t.body = some party ∧ party.exchange.id = id := by
  unfold Task.holds
  rw [Bool.or_eq_true]
  refine or_congr ?_ ?_
  · constructor
    · intro h
      split at h
      next x op todo hpc =>
        rw [Bool.and_eq_true, Bool.or_eq_true] at h
        refine ⟨x, op, todo, hpc, of_decide_eq_true h.1, h.2.imp_right fun htodo => ?_⟩
        rintro rfl
        cases htodo
      next => cases h
    · rintro ⟨x, op, todo, hpc, rfl, hheld⟩
      rw [hpc]
      show (decide (x.id = x.id) && (op.holdsExchange || !todo.isEmpty)) = true
      rw [decide_eq_true rfl, Bool.true_and, Bool.or_eq_true]
      refine hheld.imp_right fun htodo => ?_
      cases todo with
      | nil => exact absurd rfl htodo
      | cons errand todo => rfl
  · cases t.body with
    | none =>
        constructor
        · intro h
          cases h
        · rintro ⟨party, h, -⟩
          cases h
    | some party =>
        show decide (party.exchange.id = id) = true ↔ _
        rw [decide_eq_true_iff]
        constructor
        · exact fun hid => ⟨party, rfl, hid⟩
        · rintro ⟨other, h, hid⟩
          cases h
          exact hid

/-- A task that serves an exchange holds it while its operation does, or errands are left. -/
theorem Task.holds_serving {t : Task} {x : Handling} {op : Op} {todo : List Errand}
    (hpc : t.pc = .serving x op todo) (h : op.holdsExchange = true ∨ todo ≠ []) :
    t.holds x.id = true :=
  Task.holds_iff.mpr (.inl ⟨x, op, todo, hpc, rfl, h⟩)

/-- What a task holds that has moved on with its body is its exchange, or was held before. -/
theorem Task.holds_goto (t : Task) {t' : Task} {id : Nat} (h : t'.holds id = true)
    (hbody : t'.body = t.body) :
    t.holds id = true ∨ ∃ x op todo, t'.pc = .serving x op todo ∧ x.id = id := by
  rcases Task.holds_iff.mp h with ⟨x, op, todo, hpc, hid, -⟩ | hheld
  · exact .inr ⟨x, op, todo, hpc, hid⟩
  · rw [hbody] at hheld
    exact .inl (Task.holds_iff.mpr (.inr hheld))

theorem Errand.section_update {id id' : Nat} {errand : Errand} {change : Change}
    (h : errand.section id = .update id' change) : id' = id ∧ errand = .change change := by
  cases errand <;> cases h
  exact ⟨rfl, rfl⟩

theorem Act.section_update {k id id' : Nat} {act : Act} {change : Change}
    (h : act.section k id = .update id' change) : id' = id := by
  cases act <;> cases h
  rfl

/-- What a task holds after a step it held before, unless the step begins it; and what it updates
it holds. -/
theorem Task.step_holds {crypto : Crypto} {s : State} {now k : Nat} {t t' : Task} {a : Answer}
    {sec : Section} (h : t.step crypto s now k a = some (sec, t')) :
    (∀ id, t'.holds id = true → t.holds id = true ∨ sec.begins.isSome = true ∧ id = s.nextId) ∧
      ∀ id change, sec = .update id change → t.holds id = true := by
  have hmoved := Task.step_cases h
  unfold Task.step at h
  split at h
  -- an errand
  next x op errand todo hpc =>
    have hheld : t.holds x.id = true := Task.holds_serving hpc (.inr (List.cons_ne_nil _ _))
    split at h <;> cases h
    refine ⟨fun id hid => .inl ?_, fun id change hsec => ?_⟩
    · rcases t.holds_goto hid rfl with hid | ⟨y, op', todo', hpc', rfl⟩
      · exact hid
      · cases hpc'
        exact hheld
    · obtain ⟨rfl, -⟩ := Errand.section_update hsec
      exact hheld
  next x op hpc =>
    split at h
    -- the task is dropped
    next =>
      split at h <;> cases h
      refine ⟨fun id hid => .inl ?_, fun id change hsec => nomatch hsec⟩
      rcases t.holds_goto hid rfl with hid | ⟨y, op', todo', hpc', -⟩
      · exact hid
      · cases hpc'
    next =>
      -- a move of its operation, which holds the exchange
      have hafter {m : Move} (hop : op.holdsExchange = true)
          (hbody : ∀ party, m.body = some party → party.exchange.id = x.id) {id : Nat}
          (hid : (t.after x m).holds id = true) : t.holds id = true := by
        have hheld : t.holds x.id = true := Task.holds_serving hpc (.inl hop)
        rcases Task.holds_iff.mp hid with ⟨y, op', todo', hpc', rfl, -⟩ | ⟨party, hparty, rfl⟩
        · cases hpc'
          exact hheld
        · unfold Task.after at hparty
          simp only at hparty
          split at hparty
          next body hm =>
            cases hparty
            rw [hbody _ hm]
            exact hheld
          next => exact Task.holds_iff.mpr (.inr ⟨party, hparty, rfl⟩)
      split at h
      next =>
        split at h <;> cases h
        next hop =>
          refine ⟨fun id hid => .inl (hafter (Op.holdsExchange_of_awaits hop)
            (fun party hparty => by cases hparty) hid), fun id change hsec => nomatch hsec⟩
      next =>
        obtain ⟨m, hm, heq⟩ := Option.map_eq_some_iff.mp h
        cases heq
        have hop := Op.holdsExchange_of_step hm
        refine ⟨fun id hid => .inl (hafter hop (fun party hparty => ?_) hid),
          fun id change hsec => ?_⟩
        · obtain ⟨authority, -, rfl⟩ := body_of_step hm hparty
          rfl
        · rw [Act.section_update hsec]
          exact Task.holds_serving hpc (.inl hop)
  -- before the exchange
  next hnil hcons =>
    cases hmoved with
    | errand hpc => exact absurd hpc (hnil _ _ _ _)
    | deadline hpc => exact absurd hpc (hcons _ _)
    | asked hpc => exact absurd hpc (hcons _ _)
    | answered hpc => exact absurd hpc (hcons _ _)
    | begin hpc hreplay =>
        refine ⟨fun id hid => ?_, fun id change hsec => nomatch hsec⟩
        rcases t.holds_goto hid rfl with hid | ⟨y, op', todo', hpc', rfl⟩
        · exact .inl hid
        · cases hpc'
          exact .inr ⟨rfl, rfl⟩
    | admits replay hpc hsec =>
        refine ⟨fun id hid => .inl ?_, fun id change h => ?_⟩
        · rcases t.holds_goto hid rfl with hid | ⟨y, op', todo', hpc', -⟩
          · exact hid
          · cases hpc'
        · rcases hsec with rfl | ⟨token, rfl⟩ <;> cases h
    | unauthorized hpc hsec =>
        refine ⟨fun id hid => .inl ?_, fun id change h => ?_⟩
        · rcases t.holds_goto hid rfl with hid | ⟨y, op', todo', hpc', -⟩
          · exact hid
          · cases hpc'
        · rcases hsec with rfl | ⟨token, rfl⟩ <;> cases h
    | _ =>
        refine ⟨fun id hid => .inl ?_, fun id change hsec => nomatch hsec⟩
        rcases t.holds_goto hid rfl with hid | ⟨y, op', todo', hpc', -⟩
        · exact hid
        · cases hpc'

theorem Parties.holds_iff {p : Parties} {id : Nat} : p.holds id = true ↔
    (∃ t ∈ p.tasks, t.holds id = true) ∨
      ∃ store ∈ p.stores, store.exchange.id = id ∧ store.point ≠ .ended := by
  unfold Parties.holds
  rw [Bool.or_eq_true, List.any_eq_true, List.any_eq_true]
  refine or_congr_right ?_
  constructor
  · rintro ⟨store, hstore, h⟩
    rw [Bool.and_eq_true] at h
    exact ⟨store, hstore, of_decide_eq_true h.1, of_decide_eq_true h.2⟩
  · rintro ⟨store, hstore, hid, hpoint⟩
    exact ⟨store, hstore, by simp [hid, hpoint]⟩

/-- The step of a task, not only what is known of it. -/
theorem Engine.move_task {crypto : Crypto} {s : Engine} {k : Nat} {a : Answer} {sec : Section}
    {p : Parties} (h : s.move crypto (.task k a) = some (sec, p)) :
    ∃ t t', s.tasks[k]? = some t ∧ t.step crypto s.shared s.clock k a = some (sec, t') ∧
      p = { s.toParties with tasks := s.tasks.set k t' } := by
  have hstep : s.taskStep crypto (.task k a) = some (sec, p) := by
    unfold Engine.move at h
    rw [show s.lifecycle (.task k a) = none from rfl] at h
    simp only at h
    split at h
    next step hstep => rw [hstep, h]
    next => cases h
  obtain ⟨t, ht, hstep⟩ := Option.bind_eq_some_iff.mp hstep
  split at hstep
  · cases hstep
  · obtain ⟨⟨sec', t'⟩, hmove, heq⟩ := Option.bind_eq_some_iff.mp hstep
    cases heq
    exact ⟨t, t', ht, hmove, rfl⟩

/-- A step of the request body holds no more than the body did, nor does a store task it spawns;
and it updates what it holds. -/
theorem BodyParty.step_holds {party : BodyParty} {a : BodyAnswer} {move : BodyMove}
    (h : party.step a = some move) :
    (∀ party', move.party = some party' → party'.exchange = party.exchange) ∧
      (∀ store, move.store = some store → store.exchange = party.exchange) ∧
      ∀ id change, move.sec = .update id change → id = party.exchange.id := by
  unfold BodyParty.step at h
  split at h
  -- an errand
  · cases h
    refine ⟨fun party' h => ?_, (fun store h => nomatch h), fun id change h => ?_⟩
    · cases h
      rfl
    · exact (Errand.section_update h).1
  -- a store task
  · cases h
    refine ⟨fun party' h => ?_, fun store h => ?_, fun id change h => nomatch h⟩
    · cases h
      rfl
    · cases h
      rfl
  -- a poll
  · cases h
    refine ⟨fun party' h => ?_, (fun store h => nomatch h), fun id change h => nomatch h⟩
    cases h
    rfl
  -- the drop
  · cases h
    exact ⟨(fun party' h => nomatch h), (fun store h => nomatch h), fun id change h => nomatch h⟩
  · cases h

/-- A step of a store task. -/
theorem StoreTask.step_holds {s : State} {store store' : StoreTask} {error : Option String}
    {sec : Section} (h : store.step s error = some (sec, store')) :
    store'.exchange = store.exchange ∧ store.point ≠ .ended ∧
      ∀ id change, sec = .update id change → id = store.exchange.id := by
  unfold StoreTask.step at h
  simp only at h
  split at h
  all_goals cases h
  next hpoint =>
    refine ⟨rfl, by simp [hpoint], fun id change h => ?_⟩
    split at h <;> cases h
  all_goals
    next hpoint =>
      refine ⟨rfl, by simp [hpoint], fun id change h => ?_⟩
      cases h
      try rfl

/-- What a task that has moved on by other hands than its own holds, it held before. -/
theorem Engine.Became.holds {s : Engine} {e : Event} {sec : Section} {i : Nat} {t t' : Task}
    (h : s.Became e sec i t t') (he : ∀ k a, e ≠ .task k a) {id : Nat}
    (hid : t'.holds id = true) : t.holds id = true := by
  cases h with
  | stays => exact hid
  | moves => exact absurd rfl (he _ _)
  | polls hbody hstep =>
      obtain ⟨hparty, -, -⟩ := BodyParty.step_holds hstep
      rcases Task.holds_iff.mp hid with hserving | ⟨party', hparty', rfl⟩
      · exact Task.holds_iff.mpr (.inl hserving)
      · exact Task.holds_iff.mpr (.inr ⟨_, hbody, by rw [hparty _ hparty']⟩)
  | hands hpc =>
      rcases t.holds_goto hid rfl with hid | ⟨y, op, todo, hpc', rfl⟩
      · exact hid
      · cases hpc'
        exact Task.holds_serving hpc (.inl rfl)
  | receives hresolver hreceive =>
      unfold Task.receive at hreceive
      split at hreceive
      next hpc =>
        cases hreceive
        rcases t.holds_goto hid rfl with hid | ⟨y, op, todo, hpc', rfl⟩
        · exact hid
        · cases hpc'
          exact Task.holds_serving hpc (.inl rfl)
      next => cases hreceive

/-- A new task holds an exchange that begins with it, or that of the tunnel it is in. -/
theorem Engine.Arrives.holds {s : Engine} {e : Event} {sec : Section} {t' : Task}
    (h : s.Arrives e sec t') {id : Nat} (hid : t'.holds id = true) :
    (∃ t ∈ s.tasks, t.holds id = true) ∨ sec.begins.isSome = true ∧ id = s.shared.nextId := by
  rcases Task.holds_iff.mp hid with ⟨x, op, todo, hpc, rfl, -⟩ | ⟨party, hparty, -⟩
  · cases h with
    | connection => cases hpc
    | innerFirst hk hserving =>
        cases hpc
        have hheld := Task.holds_serving hserving (.inl rfl)
        exact .inl ⟨_, List.mem_of_getElem? hk, hheld⟩
    | innerNext hk hserving =>
        cases hpc
        exact .inr ⟨rfl, rfl⟩
  · cases h <;> cases hparty

/-- **What is held was held before**, unless it begins. -/
theorem Engine.move_holds {crypto : Crypto} {s : Engine} {e : Event} {sec : Section} {p : Parties}
    (h : s.move crypto e = some (sec, p)) {id : Nat} (hid : p.holds id = true) :
    s.holds id = true ∨ sec.begins.isSome = true ∧ id = s.shared.nextId := by
  have hmoved := moved_of_move h
  rcases Parties.holds_iff.mp hid with ⟨t', ht', hheld⟩ | ⟨store, hstore, rfl, hpoint⟩
  · have hbefore : (∃ t ∈ s.tasks, t.holds id = true) ∨
        sec.begins.isSome = true ∧ id = s.shared.nextId := by
      obtain ⟨i, hi⟩ := List.mem_iff_getElem?.mp ht'
      by_cases htask : ∃ k a, e = .task k a
      · obtain ⟨k, a, rfl⟩ := htask
        obtain ⟨t, t'', ht, hstep, rfl⟩ := Engine.move_task h
        rcases SingleOwner.getElem?_set_cases hi with ⟨rfl, rfl⟩ | ⟨-, hi⟩
        · exact ((Task.step_holds hstep).1 id hheld).imp_left fun hheld =>
            ⟨t, List.mem_of_getElem? ht, hheld⟩
        · exact .inl ⟨t', List.mem_of_getElem? hi, hheld⟩
      · rcases hmoved.came hi with ⟨t, ht, hbecame⟩ | ⟨-, harrives⟩
        · exact .inl ⟨t, List.mem_of_getElem? ht,
            hbecame.holds (fun k a he => htask ⟨k, a, he⟩) hheld⟩
        · exact harrives.holds hheld
    exact hbefore.imp_left fun hheld => Parties.holds_iff.mpr (.inl hheld)
  · refine .inl ?_
    have hsame (hmem : store ∈ s.stores) : s.holds store.exchange.id = true :=
      Parties.holds_iff.mpr (.inr ⟨store, hmem, rfl, hpoint⟩)
    cases hmoved with
    | lifecycle hlife => exact hsame ((outlives_lifecycle hlife).stores ▸ hstore)
    | body hk hbody hstep =>
        rcases List.mem_append.mp hstore with hstore | hstore
        · exact hsame hstore
        · rw [(BodyParty.step_holds hstep).2.1 store (Option.mem_toList.mp hstore)]
          exact Parties.holds_iff.mpr (.inl ⟨_, List.mem_of_getElem? hk,
            Task.holds_iff.mpr (.inr ⟨_, hbody, rfl⟩)⟩)
    | store hk hstep =>
        rcases List.mem_or_eq_of_mem_set hstore with hstore | rfl
        · exact hsame hstore
        · obtain ⟨hexchange, hnot, -⟩ := StoreTask.step_holds hstep
          rw [hexchange]
          exact Parties.holds_iff.mpr (.inr ⟨_, List.mem_of_getElem? hk, rfl, hnot⟩)
    | _ => exact hsame hstore

/-! ## What becomes of an exchange -/

/-- What an event makes of an exchange that has begun. -/
inductive Begun.Became (s : Engine) (sec : Section) (x : Begun) : Begun → Prop
  | stays : Became s sec x x
  | drops : s.holds x.id = false → Became s sec x { x with
      dropped := true
      todo := x.toExchange.finish (some "Transfer interrupted, cancelled or timed out.") }
  | goes {errand todo} : x.todo = errand :: todo → sec = errand.section x.id →
      Became s sec x { x with todo := todo }

theorem Begun.Became.id {s : Engine} {sec : Section} {x x' : Begun} (h : Begun.Became s sec x x') :
    x'.id = x.id := by
  cases h <;> rfl

/-- What becomes of an element where one is set. -/
theorem exists_mem_of_set {α : Type} {l : List α} {k : Nat} {a b c : α} {P : α → Prop}
    (hk : l[k]? = some a) (hb : b ∈ l) (hset : b = a → P c) (hstays : P b) :
    ∃ d ∈ l.set k c, P d := by
  obtain ⟨i, hi⟩ := List.mem_iff_getElem?.mp hb
  by_cases heq : k = i
  · subst heq
    refine ⟨c, List.mem_iff_getElem?.mpr ⟨k, ?_⟩, hset (Option.some.inj (hi.symm.trans hk))⟩
    rw [List.getElem?_set_self (List.getElem?_eq_some_iff.mp hk).1]
  · exact ⟨b, List.mem_iff_getElem?.mpr ⟨i, by rwa [List.getElem?_set_ne heq]⟩, hstays⟩

/-- An exchange stays in the log. -/
theorem Engine.Moved.became_exchange {s : Engine} {e : Event} {sec : Section} {p : Parties}
    (h : s.Moved e sec p) {x : Begun} (hx : x ∈ s.exchanges) :
    ∃ x' ∈ (p.log s.shared sec).exchanges, Begun.Became s sec x x' := by
  suffices hp : ∃ x' ∈ p.exchanges, Begun.Became s sec x x' by
    obtain ⟨x', hx', hbecame⟩ := hp
    refine ⟨x', ?_, hbecame⟩
    cases sec with
    | begin => exact List.mem_append_left _ hx'
    | _ => exact hx'
  cases h with
  | lifecycle hlife => exact ⟨x, (outlives_lifecycle hlife).exchanges ▸ hx, .stays⟩
  | dropExchange hk hheld =>
      refine exists_mem_of_set hk hx (fun h => ?_) .stays
      subst h
      exact .drops hheld
  | exchange hk htodo =>
      refine exists_mem_of_set hk hx (fun h => ?_) .stays
      subst h
      exact .goes htodo rfl
  | _ => exact ⟨x, hx, .stays⟩

/-- An exchange in the log was there, or begins. -/
theorem Engine.Moved.came_exchange {s : Engine} {e : Event} {sec : Section} {p : Parties}
    (h : s.Moved e sec p) {x' : Begun} (hx' : x' ∈ (p.log s.shared sec).exchanges) :
    (∃ x ∈ s.exchanges, Begun.Became s sec x x') ∨ x'.dropped = false ∧ x'.todo = [] := by
  by_cases hp : x' ∈ p.exchanges
  · refine .inl ?_
    cases h with
    | lifecycle hlife => exact ⟨x', (outlives_lifecycle hlife).exchanges ▸ hp, .stays⟩
    | dropExchange hk hheld =>
        rcases List.mem_or_eq_of_mem_set hp with hp | rfl
        · exact ⟨x', hp, .stays⟩
        · exact ⟨_, List.mem_of_getElem? hk, .drops hheld⟩
    | exchange hk htodo =>
        rcases List.mem_or_eq_of_mem_set hp with hp | rfl
        · exact ⟨x', hp, .stays⟩
        · exact ⟨_, List.mem_of_getElem? hk, .goes htodo rfl⟩
    | _ => exact ⟨x', hp, .stays⟩
  · refine .inr ?_
    cases sec with
    | begin =>
        rcases List.mem_append.mp hx' with hx' | hx'
        · exact absurd hx' hp
        · rw [List.mem_singleton.mp hx']
          exact ⟨rfl, rfl⟩
    | _ => exact absurd hx' hp

/-! ## The last increment -/

/-- Every exchange that is held is there, and one that was dropped finishes, step by step. -/
structure Engine.Referenced (s : Engine) : Prop where
  held : ∀ id, s.holds id = true → ∃ x ∈ s.exchanges, x.id = id ∧ x.dropped = false
  finishing : ∀ x ∈ s.exchanges, ∃ error, x.todo <:+ x.toExchange.finish error

theorem Engine.Referenced.step {crypto : Crypto} {s s' : Engine} {e : Event} (h : s.Referenced)
    (hstep : s.step crypto e = some s') : s'.Referenced := by
  obtain ⟨⟨sec, p⟩, hmove, rfl⟩ := Option.map_eq_some_iff.mp hstep
  have hmoved := moved_of_move hmove
  refine ⟨fun id hid => ?_, fun x' hx' => ?_⟩
  · have hp : p.holds id = true := by
      unfold Parties.holds at hid ⊢
      rwa [Parties.log_tasks, Parties.log_stores] at hid
    rcases Engine.move_holds hmove hp with hheld | ⟨hbegins, rfl⟩
    · obtain ⟨x, hx, rfl, halive⟩ := h.held id hheld
      obtain ⟨x', hx', hbecame⟩ := hmoved.became_exchange hx
      refine ⟨x', hx', hbecame.id, ?_⟩
      cases hbecame with
      | stays => exact halive
      | drops hnot => cases hnot.symm.trans hheld
      | goes => exact halive
    · cases sec with
      | begin => exact ⟨_, List.mem_append_right _ (List.mem_singleton_self _), rfl, rfl⟩
      | _ => cases hbegins
  · rcases hmoved.came_exchange hx' with ⟨x, hx, hbecame⟩ | ⟨-, htodo⟩
    · obtain ⟨error, hsuffix⟩ := h.finishing x hx
      cases hbecame with
      | stays => exact ⟨error, hsuffix⟩
      | drops => exact ⟨_, List.suffix_refl _⟩
      | goes htodo =>
          rw [htodo] at hsuffix
          exact ⟨error, (List.suffix_cons _ _).trans hsuffix⟩
    · rw [htodo]
      exact ⟨none, List.nil_suffix⟩

theorem Engine.referenced {crypto : Crypto} {s : Engine} (h : (engine crypto).Reachable s) :
    s.Referenced := by
  refine h.invariant ⟨fun id hid => ?_, fun x hx => nomatch hx⟩ fun hs _ hstep => hs.step hstep
  cases hid

/-- What updates a capture holds its exchange, or finishes it. -/
theorem Engine.move_updates {crypto : Crypto} {s : Engine} {e : Event} {id : Nat}
    {change : Change} {p : Parties} (h : s.move crypto e = some (.update id change, p)) :
    s.holds id = true ∨
      ∃ x ∈ s.exchanges, x.id = id ∧ ∃ todo, x.todo = .change change :: todo := by
  have htask {k : Nat} {t : Task} (hk : s.tasks[k]? = some t) (hheld : t.holds id = true) :
      s.holds id = true :=
    Parties.holds_iff.mpr (.inl ⟨t, List.mem_of_getElem? hk, hheld⟩)
  have hmoved := moved_of_move h
  generalize hsec : Section.update id change = sec at hmoved
  cases hmoved with
  | lifecycle hlife =>
      rcases (outlives_lifecycle hlife).sec with rfl | ⟨_, _, rfl⟩ | rfl | rfl <;> cases hsec
  | task =>
      obtain ⟨t, t', ht, hstep, -⟩ := Engine.move_task h
      exact .inl (htask ht ((Task.step_holds hstep).2 id change rfl))
  | body hk hbody hstep =>
      rw [(BodyParty.step_holds hstep).2.2 id change hsec.symm] at htask ⊢
      exact .inl (htask hk (Task.holds_iff.mpr (.inr ⟨_, hbody, rfl⟩)))
  | store hk hstep =>
      obtain ⟨-, hpoint, hupdate⟩ := StoreTask.step_holds hstep
      rw [hupdate id change hsec.symm]
      exact .inl (Parties.holds_iff.mpr (.inr ⟨_, List.mem_of_getElem? hk, rfl, hpoint⟩))
  | exchange hk htodo =>
      obtain ⟨rfl, rfl⟩ := Errand.section_update hsec.symm
      exact .inr ⟨_, List.mem_of_getElem? hk, rfl, _, htodo⟩
  | _ => cases hsec

/-- An exchange of a capture that is still there has its last increment before it. -/
def Engine.Due (s : Engine) : Prop :=
  ∃ x ∈ s.exchanges, s.shared.Retained x.id ∧ (x.dropped = false ∨ Errand.announce ∈ x.todo)

/-- What is left of a `finish` that begins with a change ends with the increment. -/
theorem announce_mem_of_suffix {x : Exchange} {error : Option String} {errand : Errand}
    {todo : List Errand} (h : errand :: todo <:+ x.finish error) :
    Errand.announce ∈ errand :: todo := by
  obtain ⟨before, hfinish⟩ := h
  unfold Exchange.finish at hfinish
  have hlast : (errand :: todo).getLast? = some Errand.announce := by
    rw [← List.getLast?_append_cons before, hfinish]
    rfl
  exact List.mem_of_getLast? hlast

/-- Without an increment what is due stays due. -/
theorem Engine.Due.keep {crypto : Crypto} {s : Engine} {e : Event} {sec : Section} {p : Parties}
    (h : s.Due) (hmove : s.move crypto e = some (sec, p)) (hquiet : sec.increments = false) :
    Engine.Due { p.log s.shared sec with shared := s.shared.apply s.clock sec } := by
  obtain ⟨x, hx, hretained, hdue⟩ := h
  obtain ⟨x', hx', hbecame⟩ := (moved_of_move hmove).became_exchange hx
  refine ⟨x', hx', (State.apply_retained hquiet).mpr (hbecame.id ▸ hretained), ?_⟩
  cases hbecame with
  | stays => exact hdue
  | drops => exact .inr (List.mem_cons_of_mem _ (List.mem_singleton_self _))
  | goes htodo hsec =>
      refine hdue.imp_right fun hmem => ?_
      rw [htodo] at hmem
      rcases List.mem_cons.mp hmem with rfl | hmem
      · rw [hsec] at hquiet
        cases hquiet
      · exact hmem

/-- **One step**: it increments, or leaves an increment to come, or changes nothing with none to
come. -/
theorem Engine.Referenced.announces {crypto : Crypto} {s s' : Engine} {e : Event}
    (h : s.Referenced) (hstep : s.step crypto e = some s') :
    s.shared.revision < s'.shared.revision ∨ s'.Due ∨
      ¬ s.Due ∧ s'.shared.snapshot = s.shared.snapshot := by
  obtain ⟨⟨sec, p⟩, hmove, rfl⟩ := Option.map_eq_some_iff.mp hstep
  show _ < (s.shared.apply s.clock sec).revision ∨ _ ∨ _ ∧ (s.shared.apply s.clock sec).snapshot = _
  rw [State.apply_revision]
  by_cases hquiet : sec.increments = false
  · refine .inr ?_
    by_cases hdue : s.Due
    · exact .inl (hdue.keep hmove hquiet)
    rcases State.apply_snapshot hquiet with hsame | ⟨id, change, rfl, hretained⟩
    · exact .inr ⟨hdue, hsame⟩
    -- who updates a capture that is there has an increment to come
    · exfalso
      rcases Engine.move_updates hmove with hheld | ⟨x, hx, rfl, todo, htodo⟩
      · obtain ⟨x, hx, rfl, halive⟩ := h.held id hheld
        exact hdue ⟨x, hx, hretained, .inl halive⟩
      · obtain ⟨error, hsuffix⟩ := h.finishing x hx
        rw [htodo] at hsuffix
        exact hdue ⟨x, hx, hretained, .inr (htodo ▸ announce_mem_of_suffix hsuffix)⟩
  · rw [Bool.not_eq_false] at hquiet
    rw [hquiet]
    exact .inl (Nat.lt_succ_self _)

/-! ## Clients -/

/-- `accept` of a client: the newest snapshot stays. -/
def Snapshot.accept (previous : Option Snapshot) (next : Snapshot) : Option Snapshot :=
  Versioned.accept Snapshot.revision previous next

/-- The snapshot was read in a state of the run. -/
def Snapshot.ReadIn (crypto : Crypto) (es : List Event) (b : Snapshot) : Prop :=
  ∃ before after u, es = before ++ after ∧ (engine crypto).run before = some u ∧
    b = u.shared.snapshot

/-- No field of the snapshot has changed in the run since the last increment. -/
def Engine.Announced (crypto : Crypto) (es : List Event) (s : Engine) : Prop :=
  Versioned.Current (engine crypto) (·.shared.snapshot) Snapshot.revision es s

/-- No capture that is still there has an exchange: all references to it are gone, and what its
drop does is done. -/
def Engine.Released (s : Engine) : Prop :=
  ∀ x ∈ s.exchanges, s.shared.Retained x.id → x.dropped = true ∧ x.todo = []

instance (s : Engine) : Decidable s.Released :=
  inferInstanceAs (Decidable (∀ x ∈ s.exchanges, _))

theorem Engine.Released.not_due {s : Engine} (h : s.Released) : ¬ s.Due := by
  rintro ⟨x, hx, hretained, hdue⟩
  obtain ⟨hdropped, htodo⟩ := h x hx hretained
  rcases hdue with halive | hmem
  · cases halive.symm.trans hdropped
  · rw [htodo] at hmem
    cases hmem

theorem Engine.step_revision {crypto : Crypto} {s s' : Engine} {e : Event}
    (h : (engine crypto).step s e = some s') : s.shared.revision ≤ s'.shared.revision := by
  obtain ⟨sec, p, -, hshared, -⟩ := Engine.step_cases h
  rw [hshared, State.apply_revision]
  exact Nat.le_add_right _ _

/-- **In every run all is announced, or an increment is due.** -/
theorem announced_or_due {crypto : Crypto} {es : List Event} {s : Engine}
    (hrun : (engine crypto).run es = some s) : s.Announced crypto es ∨ s.Due := by
  refine Versioned.current_or (engine crypto) (·.shared.snapshot) Snapshot.revision
    Engine.step_revision ?_ hrun
  intro es s e s' hrun hstep
  exact (Engine.referenced (Machine.reachable_of_run es hrun)).announces hstep

/-- **No change of the snapshot stays unannounced.** In every state of a run in which no capture has
an exchange left, no field of the snapshot has changed since the last increment. So a client that
has read one after it shows this state, whatever it has read before and in whichever order the
snapshots have come. -/
theorem no_change_stays_unannounced {crypto : Crypto} {es : List Event} {s : Engine}
    (hrun : (engine crypto).run es = some s) (hreleased : s.Released) :
    s.Announced crypto es ∧
      ∀ copies : List Snapshot, (∀ b ∈ copies, b.ReadIn crypto es) →
        (∃ b ∈ copies, b.revision = s.shared.revision) →
        copies.foldl Snapshot.accept none = some s.shared.snapshot := by
  have hannounced : s.Announced crypto es :=
    (announced_or_due hrun).resolve_right hreleased.not_due
  refine ⟨hannounced, fun copies hread hlast => ?_⟩
  exact hannounced.foldl_accept hrun Engine.step_revision hread hlast

/-- An upload. -/
def upload : Request := { plainGet localhost with method := "POST".toList, bodyEnded := false }

/-- It is answered, and its exchange finished, while it is still sent. -/
def answeredEarly : List Event :=
  starting .default ++ [.accept] ++
    answers 0 (untilSent upload ++ [.upstream (some ⟨413, [], true, []⟩), .go, .go, .go, .go, .go,
      .go, .go])

/-- The rest of it comes. -/
def lateFrame : List Event := [.body 0 (.poll (.frame (.data [1, 2, 3]) false)), .body 0 .go]

/-- Nobody works on it any more. -/
def uploadReleased : List Event :=
  [.body 0 .drop, .task 0 .drop, .dropExchange 0, .exchange 0, .exchange 0]

/-- The late frame is announced with the end of the exchange, to a client that gets the snapshots
the wrong way round. -/
theorem late_frame_is_shown :
    ∃ u s, (engine .unused).run answeredEarly = some u ∧
      (engine .unused).run (answeredEarly ++ (lateFrame ++ uploadReleased)) = some s ∧
      (s.shared.traffic.map fun c => c.requestBytes) = [3] ∧
      [s.shared.snapshot, u.shared.snapshot].foldl Snapshot.accept none =
        some s.shared.snapshot := by
  have hshown : ((engine .unused).run (answeredEarly ++ (lateFrame ++ uploadReleased))).map
      (fun s => (decide s.Released, s.shared.traffic.map fun c => c.requestBytes)) =
        some (true, [3]) := by
    decide +kernel
  have hearly : ((engine .unused).run answeredEarly).isSome = true := by decide +kernel
  obtain ⟨u, hu⟩ := Option.isSome_iff_exists.mp hearly
  obtain ⟨s, hs, heq⟩ := Option.map_eq_some_iff.mp hshown
  obtain ⟨hreleased, hbytes⟩ := Prod.mk.inj heq
  refine ⟨u, s, hu, hs, hbytes, ?_⟩
  refine (no_change_stays_unannounced hs (of_decide_eq_true hreleased)).2 _ ?_
    ⟨_, List.mem_cons_self, rfl⟩
  intro b hb
  rcases List.mem_cons.mp hb with rfl | hb
  · exact ⟨_, [], s, (List.append_nil _).symm, hs, rfl⟩
  · rw [List.mem_singleton.mp hb]
    exact ⟨answeredEarly, _, u, rfl, hu, rfl⟩

/-- No capture is pending and no store task runs, but the late frame is not announced. -/
theorem late_frame_is_unannounced :
    ∃ s, (engine .unused).run (answeredEarly ++ lateFrame) = some s ∧
      (∀ c ∈ s.shared.traffic, c.phase ≠ .pending) ∧ s.stores.length = 0 ∧
      ¬ s.Announced .unused (answeredEarly ++ lateFrame) := by
  have hlate : ((engine .unused).run answeredEarly).bind (fun u =>
      ((engine .unused).run (answeredEarly ++ lateFrame)).map fun s =>
        (s.shared.traffic.all (fun c => decide (c.phase ≠ .pending)), s.stores.length,
          decide (u.shared.snapshot.revision = s.shared.snapshot.revision),
          decide (u.shared.snapshot = s.shared.snapshot))) = some (true, 0, true, false) := by
    decide +kernel
  obtain ⟨u, hu, hlate⟩ := Option.bind_eq_some_iff.mp hlate
  obtain ⟨s, hs, heq⟩ := Option.map_eq_some_iff.mp hlate
  simp only [Prod.mk.injEq] at heq
  obtain ⟨hpending, hstores, hrevision, hsnapshot⟩ := heq
  refine ⟨s, hs, fun c hc => ?_, hstores, fun hannounced => ?_⟩
  · exact of_decide_eq_true (List.all_eq_true.mp hpending c hc)
  · exact of_decide_eq_false hsnapshot
      (hannounced answeredEarly lateFrame u rfl hu (of_decide_eq_true hrevision))

end SippinSoda
