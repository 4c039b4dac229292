import SippinSoda.Engine.Retention

/-!
# Pauses

A response breakpoint leaves three traces: a sender in `breakpoints`, `waiting` in the
capture, and the task that awaits the receiver.

* **Senders** — a sender, in the map or taken by a resolver, belongs to a task that has come
  to its pause, and no other pause of the exchange comes;
* **Paused** — the three traces agree as long as every pause ends in its own code;
* **breakpoints_match_pauses** — what this means for the map and the captures.

The code after the await takes the other two traces back. A deadline or a drop at the await
leaves them, and a request body or a tunnel may finish the exchange in the meantime.
-/

namespace SippinSoda

/-! ## Points around a pause -/

/-- Before the pause, if there will be one. -/
def Op.opening : Op → Bool
  | .answered _ _ | .breaking _ _ => true
  | op => op.early && op.hands

/-- Up to what follows the pause. -/
def Op.pausing : Op → Bool
  | .paused _ _ _ | .shaping _ _ => true
  | op => op.opening

theorem Op.opening_of_early {op : Op} (hearly : op.early = true) (hhands : op.hands = true) :
    op.opening = true := by
  cases op <;> first | exact hhands | cases hearly

theorem Op.pausing_of_opening {op : Op} (h : op.opening = true) : op.pausing = true := by
  cases op <;> first | exact h | rfl

theorem Op.hands_of_pausing {op : Op} (h : op.pausing = true) : op.hands = true := by
  cases op <;> first | rfl | exact h

theorem Op.pausing_of_response {op : Op} {response : Response} (h : op.response? = some response) :
    op.pausing = false := by
  cases op <;> first | rfl | cases h

theorem Op.initial_opening : Op.Initial Op.opening where
  asked h hop := opening_of_early h.early (h.hands (hands_of_pausing (pausing_of_opening hop)))
  answered h hop := by
    cases h with
    | looked => rfl
    | shaped upstream draft op c hop' => rcases hop' with rfl | rfl <;> cases hop
    | onward op op' a response todo _ hresponse =>
        exact absurd (pausing_of_opening hop) (by simp [pausing_of_response hresponse])
    | _ => cases hop
  refused _ hop := nomatch hop
  received hop := nomatch hop
  handed _ := rfl
  inner _ := rfl

theorem Op.initial_pausing : Op.Initial Op.pausing where
  asked h hop := pausing_of_opening (opening_of_early h.early (h.hands (hands_of_pausing hop)))
  answered h hop := by
    cases h with
    | onward op op' a response todo _ hresponse =>
        exact absurd hop (by simp [pausing_of_response hresponse])
    | stored => cases hop
    | recorded => cases hop
    | checked => cases hop
    | _ => rfl
  refused _ hop := nomatch hop
  received _ := rfl
  handed _ := rfl
  inner _ := rfl

/-! ## Senders -/

/-- A sender exists for the receiver of task `k`: it is in the map under `id`, or a resolver
has taken it from there. -/
def Engine.Asks (s : Engine) (id k : Nat) : Prop :=
  (id, k) ∈ s.shared.breakpoints ∨ ∃ decision, .sending id k decision ∈ s.resolvers

/-- The task has come to the pause of this exchange, and may have gone since. -/
def Task.Past (t : Task) (id : Nat) : Prop :=
  t.pc = .gone ∨ ∃ x op todo, t.pc = .serving x op todo ∧ x.id = id ∧ op.opening = false

theorem Parties.log_resolvers (p : Parties) (s : State) (sec : Section) :
    (p.log s sec).resolvers = p.resolvers := by
  cases sec <;> rfl

theorem Engine.Moved.resolvers {s : Engine} {e : Event} {sec : Section} {p : Parties}
    (h : s.Moved e sec p) {id k : Nat} {decision : BreakpointDecision}
    (hmem : .sending id k decision ∈ p.resolvers) :
    .sending id k decision ∈ s.resolvers ∨
      (sec = .removeBreakpoint id ∧ (id, k) ∈ s.shared.breakpoints) := by
  cases h with
  | lifecycle hlife => exact .inl ((outlives_lifecycle hlife).resolvers ▸ hmem)
  | unresolved =>
      refine .inl ((List.mem_append.mp hmem).resolve_right fun hmem => ?_)
      cases List.mem_singleton.mp hmem
  | resolve hkey _ =>
      rcases List.mem_append.mp hmem with hmem | hmem
      · exact .inl hmem
      · cases List.mem_singleton.mp hmem
        exact .inr ⟨rfl, hkey⟩
  | receive =>
      rcases List.mem_or_eq_of_mem_set hmem with hmem | hmem
      · exact .inl hmem
      · cases hmem
  | late =>
      rcases List.mem_or_eq_of_mem_set hmem with hmem | hmem
      · exact .inl hmem
      · cases hmem
  | closed =>
      rcases List.mem_or_eq_of_mem_set hmem with hmem | hmem
      · exact .inl hmem
      · cases hmem
  | _ => exact .inl hmem

/-- Who is past the opening of a pause does not come back to it. -/
theorem Task.Moved.past {s : State} {now k : Nat} {t t' : Task} {a : Answer} {sec : Section}
    (h : t.Moved s now k a sec t') {id : Nat} (ht : t.Past id) : t'.Past id := by
  rcases ht with hgone | ⟨x, op, todo, hpc, rfl, hop⟩
  · exact .inl (h.gone hgone)
  · cases h.goes hpc with
    | errand => exact .inr ⟨_, _, _, rfl, rfl, hop⟩
    | drop => exact .inl rfl
    | deadline => exact .inr ⟨_, _, _, rfl, rfl, rfl⟩
    | asked _ hasked =>
        refine .inr ⟨_, _, _, rfl, rfl, Bool.eq_false_iff.mpr fun hopening => ?_⟩
        exact absurd (Op.initial_opening.asked hasked hopening) (by simp [hop])
    | answered hanswered =>
        refine .inr ⟨_, _, _, rfl, rfl, Bool.eq_false_iff.mpr fun hopening => ?_⟩
        exact absurd (Op.initial_opening.answered hanswered hopening) (by simp [hop])

theorem Engine.Became.past {s : Engine} {e : Event} {sec : Section} {i : Nat} {t t' : Task}
    (h : s.Became e sec i t t') {id : Nat} (ht : t.Past id) : t'.Past id := by
  cases h with
  | stays => exact ht
  | moves hallows hmoved => exact hmoved.past ht
  | polls hbody hstep _ => exact ht
  | hands hpc =>
      rcases ht with hgone | ⟨x, op, todo, hpc', -, hop⟩
      · cases hgone.symm.trans hpc
      · cases hpc'.symm.trans hpc
        cases hop
  | receives hresolver hreceive =>
      rw [Task.receive] at hreceive
      split at hreceive
      next hpc =>
        cases hreceive
        rcases ht with hgone | ⟨x, op, todo, hpc', hid, hop⟩
        · cases hgone.symm.trans hpc
        · cases hpc'.symm.trans hpc
          exact .inr ⟨_, _, _, rfl, hid, rfl⟩
      next => cases hreceive

/-- Every sender belongs to a task that has come to its pause; the exchange comes to no
other; and a sender that has been taken is not in the map. -/
structure Engine.Senders (s : Engine) : Prop where
  past : ∀ id k, s.Asks id k → ∃ t, s.tasks[k]? = some t ∧ t.Past id
  once : ∀ id k, s.Asks id k →
    id < s.shared.nextId ∧ ∀ t ∈ s.tasks, t.at? Op.opening ≠ some id
  taken : ∀ id k k' decision, (id, k) ∈ s.shared.breakpoints →
    .sending id k' decision ∉ s.resolvers

theorem Engine.Senders.step {crypto : Crypto} {s s' : Engine} {e : Event}
    (hc : s.Consistent) (hsingle : s'.Single) (h : s.Senders)
    (hstep : s.step crypto e = some s') : s'.Senders := by
  obtain ⟨sec, p, hmoved, hshared, hparties⟩ := step_cases hstep
  have htasks : s'.tasks = p.tasks := by rw [hparties, Parties.log_tasks]
  have hresolvers : s'.resolvers = p.resolvers := by rw [hparties, Parties.log_resolvers]
  have hnext : s.shared.nextId ≤ s'.shared.nextId := by
    rw [hshared, State.apply_nextId]
    exact Nat.le_add_right _ _
  have hasks : ∀ id k, s'.Asks id k →
      s.Asks id k ∨ ∃ status, sec = .openBreakpoint id k status := by
    rintro id k (hkey | ⟨decision, hmem⟩)
    · exact (State.mem_apply_breakpoints (hshared ▸ hkey)).imp_left fun hold => .inl hold.1
    · refine .inl ((hmoved.resolvers (hresolvers ▸ hmem)).elim ?_ ?_)
      · exact fun hold => .inr ⟨decision, hold⟩
      · exact fun hnew => .inl hnew.2
  refine ⟨fun id k hask => ?_, fun id k hask => ?_, fun id k k' decision hkey hmem => ?_⟩
  · rw [htasks]
    rcases hasks id k hask with hold | ⟨status, rfl⟩
    · obtain ⟨t, ht, hpast⟩ := h.past id k hold
      obtain ⟨t', ht', hbecame⟩ := hmoved.became ht
      exact ⟨t', ht', hbecame.past hpast⟩
    · obtain ⟨_, t', x, upstream, draft, -, -, ht', rfl, -, hpc', -⟩ := hmoved.opens
      exact ⟨t', ht', .inr ⟨_, _, _, hpc', rfl, rfl⟩⟩
  · rcases hasks id k hask with hold | ⟨status, rfl⟩
    · obtain ⟨hlt, hnone⟩ := h.once id k hold
      refine ⟨Nat.lt_of_lt_of_le hlt hnext, fun t' ht' hopening => ?_⟩
      rcases hmoved.at Op.initial_opening (htasks ▸ ht') hopening with ⟨t, ht, hid⟩ | rfl
      · exact hnone t ht hid
      · exact Nat.lt_irrefl _ hlt
    · obtain ⟨t, t', x, upstream, draft, -, ht, ht', rfl, hpc, hpc', -⟩ := hmoved.opens
      have hserves : Serves t x.id x.destination := ⟨x, _, _, hpc, rfl, rfl⟩
      have hlt := hc.fresh _ (hc.served t (List.mem_of_getElem? ht) _ _ hserves)
      refine ⟨Nat.lt_of_lt_of_le hlt hnext, fun u hu hopening => ?_⟩
      -- the task that has just paused is the only one that forwards the exchange
      obtain ⟨i, hi⟩ := List.mem_iff_getElem?.mp hu
      obtain ⟨y, op, todo, hpcu, hop, hid⟩ := Task.at?_eq_some.mp hopening
      have hforwards : u.forwards? = some x.id :=
        Task.at?_eq_some.mpr ⟨y, op, todo, hpcu, Op.hands_of_pausing (Op.pausing_of_opening hop), hid⟩
      have hforwards' : t'.forwards? = some x.id := Task.at?_eq_some.mpr ⟨_, _, _, hpc', rfl, rfl⟩
      rw [← htasks] at ht'
      cases hsingle hi ht' hforwards hforwards'
      cases hi.symm.trans ht'
      cases hpcu.symm.trans hpc'
      cases hop
  · rw [hshared] at hkey
    rw [hresolvers] at hmem
    rcases State.mem_apply_breakpoints hkey with ⟨hold, hne⟩ | ⟨status, rfl⟩
    · rcases hmoved.resolvers hmem with hmem | ⟨hsec, -⟩
      · exact h.taken id k k' decision hold hmem
      · exact hne hsec
    · rcases hmoved.resolvers hmem with hmem | ⟨hsec, -⟩
      · obtain ⟨t, _, x, upstream, draft, -, ht, -, rfl, hpc, -⟩ := hmoved.opens
        refine (h.once x.id k' (.inr ⟨decision, hmem⟩)).2 t (List.mem_of_getElem? ht) ?_
        exact Task.at?_eq_some.mpr ⟨_, _, _, hpc, rfl, rfl⟩
      · cases hsec

theorem Engine.senders {crypto : Crypto} {s : Engine} (h : (engine crypto).Reachable s) :
    s.Senders := by
  refine h.invariant_along ⟨?_, ?_, ?_⟩ fun hr hs _ hstep =>
    hs.step (consistent hr) (single (.step hr trivial hstep)) hstep
  · rintro id k (hkey | ⟨decision, hmem⟩)
    · cases hkey
    · cases hmem
  · rintro id k (hkey | ⟨decision, hmem⟩)
    · cases hkey
    · cases hmem
  · exact fun id k k' decision hkey => nomatch hkey

/-! ## Dropped exchanges -/

/-- The errands of a dropped exchange come when no task can pause on it any more. -/
def Engine.Buried (s : Engine) : Prop :=
  ∀ x ∈ s.exchanges, x.todo ≠ [] → ∀ t ∈ s.tasks, t.at? Op.pausing ≠ some x.id

theorem Op.holdsExchange_of_pausing {op : Op} (h : op.pausing = true) :
    op.holdsExchange = true := by
  cases op <;> first | rfl | cases h

/-- Who may pause on an exchange holds it. -/
theorem Parties.at?_of_not_holds {p : Parties} {id : Nat} (h : p.holds id = false) {t : Task}
    (ht : t ∈ p.tasks) : t.at? Op.pausing ≠ some id := by
  intro hid
  obtain ⟨x, op, todo, hpc, hop, rfl⟩ := Task.at?_eq_some.mp hid
  have hholds : t.holds x.id = true := by
    simp [Task.holds, hpc, Op.holdsExchange_of_pausing hop]
  rw [Parties.holds, Bool.or_eq_false_iff] at h
  exact absurd hholds (by simpa using List.any_eq_false.mp h.1 t ht)

/-- An exchange with errands had them, or has just been dropped. -/
theorem Engine.Moved.exchanges {s : Engine} {e : Event} {sec : Section} {p : Parties}
    (h : s.Moved e sec p) {x' : Begun} (hx' : x' ∈ (p.log s.shared sec).exchanges)
    (htodo : x'.todo ≠ []) :
    ∃ x ∈ s.exchanges, x.id = x'.id ∧ (x.todo ≠ [] ∨ s.holds x.id = false) := by
  have hx : x' ∈ p.exchanges := by
    cases sec with
    | begin request destination clientProfileId replayOf =>
        rcases List.mem_append.mp hx' with hx' | hx'
        · exact hx'
        · cases List.mem_singleton.mp hx'
          exact absurd rfl htodo
    | _ => exact hx'
  cases h with
  | lifecycle hlife => exact ⟨x', (outlives_lifecycle hlife).exchanges ▸ hx, rfl, .inl htodo⟩
  | dropExchange hk hheld =>
      rcases List.mem_or_eq_of_mem_set hx with hx | rfl
      · exact ⟨x', hx, rfl, .inl htodo⟩
      · exact ⟨_, List.mem_of_getElem? hk, rfl, .inr hheld⟩
  | exchange hk hcons =>
      rcases List.mem_or_eq_of_mem_set hx with hx | rfl
      · exact ⟨x', hx, rfl, .inl htodo⟩
      · exact ⟨_, List.mem_of_getElem? hk, rfl, .inl (by simp [hcons])⟩
  | _ => exact ⟨x', hx, rfl, .inl htodo⟩

theorem Engine.Buried.step {crypto : Crypto} {s s' : Engine} {e : Event} (hc : s.Consistent)
    (h : s.Buried) (hstep : s.step crypto e = some s') : s'.Buried := by
  obtain ⟨sec, p, hmoved, hshared, hparties⟩ := step_cases hstep
  intro x' hx' htodo t' ht' hid
  rw [hparties] at hx'
  rw [hparties, Parties.log_tasks] at ht'
  obtain ⟨x, hx, heq, hwhy⟩ := hmoved.exchanges hx' htodo
  rcases hmoved.at Op.initial_pausing ht' hid with ⟨t, ht, hold⟩ | hnext
  · rw [← heq] at hold
    rcases hwhy with htodo | hheld
    · exact h x hx htodo t ht hold
    · exact Parties.at?_of_not_holds hheld ht hold
  · have hlt := hc.fresh (x.id, x.destination) (List.mem_map_of_mem hx)
    rw [heq, hnext] at hlt
    exact Nat.lt_irrefl _ hlt

theorem Engine.buried {crypto : Crypto} {s : Engine} (h : (engine crypto).Reachable s) :
    s.Buried :=
  h.invariant_along (fun _ hx => nomatch hx) fun hr hs _ hstep => hs.step (consistent hr) hstep

/-! ## Pauses that end in their own code -/

/-- The exchange whose receiver a task holds at the await. -/
def Task.pausedOn? (t : Task) : Option Nat :=
  match t.pc with
  | .serving x (.paused _ _ _) [] => some x.id
  | _ => none

/-- The same, while no decision has come. -/
def Task.awaiting? (t : Task) : Option Nat :=
  match t.pc with
  | .serving x (.paused _ _ none) [] => some x.id
  | _ => none

/-- The exchange a task is paused on, or whose capture it is about to take the outcome to. -/
def Task.resumes? (t : Task) : Option Nat :=
  match t.pc with
  | .serving x (.paused _ _ _) [] => some x.id
  | .serving x (.shaping _ _) (.change (.resumed _) :: _) => some x.id
  | _ => none

/-- The exchange of a pause that an event cuts off: by the request's deadline, or by the
drop of the task, on a disconnect or on Stop. -/
def Engine.cutsOff? (s : Engine) : Event → Option Nat
  | .task k .deadline | .task k .drop => (s.tasks[k]?).bind Task.pausedOn?
  | _ => none

def Errand.finishes : Errand → Bool
  | .change (.finish _ _) => true
  | _ => false

/-- The exchange an event finishes that it does not forward: a request body that failed, or
a tunnel that has handed its exchange on. -/
def Engine.finishes? (s : Engine) : Event → Option Nat
  | .task k .go =>
      match (s.tasks[k]?).map Task.pc with
      | some (.serving x op (errand :: _)) =>
          if errand.finishes && !op.hands then some x.id else none
      | _ => none
  | .body k .go =>
      match (s.tasks[k]?).bind Task.body with
      | none => none
      | some party =>
        match party.todo with
        | errand :: _ => if errand.finishes then some party.exchange.id else none
        | [] => none
  | _ => none

/-- The exchange whose pause an event opens. -/
def Engine.opens? (s : Engine) : Event → Option Nat
  | .task k .go =>
      match (s.tasks[k]?).map Task.pc with
      | some (.serving x (.breaking _ _) []) =>
          if s.shared.breakOnResponses && s.shared.canModify x.id then some x.id else none
      | _ => none
  | _ => none

/-- A pause opens on a pending capture, and while the capture is there it is not cut off and
nobody else finishes the exchange. -/
def pausesEnd (s : Engine) (e : Event) : Prop :=
  (∀ id ∈ s.cutsOff? e, ¬ s.shared.Retained id) ∧
  (∀ id ∈ s.finishes? e, s.shared.Retained id → ∀ t ∈ s.tasks, t.resumes? ≠ some id) ∧
  ∀ id ∈ s.opens? e, ∀ c ∈ s.shared.traffic, c.id = id → c.phase = .pending

instance (s : Engine) (e : Event) : Decidable (pausesEnd s e) :=
  inferInstanceAs (Decidable (_ ∧ _ ∧ _))

/-- The traces of a pause agree. -/
structure Engine.Paused (s : Engine) : Prop where
  keys : ∀ id k, (id, k) ∈ s.shared.breakpoints →
    ∃ t, s.tasks[k]? = some t ∧ t.awaiting? = some id
  waiting : ∀ c ∈ s.shared.traffic, c.breakpointState = .waiting →
    c.phase = .pending ∧ ∃ t ∈ s.tasks, t.resumes? = some c.id

theorem Task.awaiting?_eq_some {t : Task} {id : Nat} :
    t.awaiting? = some id ↔
      ∃ x upstream draft, t.pc = .serving x (.paused upstream draft none) [] ∧ x.id = id := by
  rw [Task.awaiting?]
  constructor
  · intro h
    split at h
    next x upstream draft hpc =>
      cases h
      exact ⟨x, upstream, draft, hpc, rfl⟩
    next => cases h
  · rintro ⟨x, upstream, draft, hpc, rfl⟩
    rw [hpc]

theorem Task.resumes?_eq_some {t : Task} {id : Nat} :
    t.resumes? = some id ↔
      ∃ x, x.id = id ∧
        ((∃ upstream draft received, t.pc = .serving x (.paused upstream draft received) []) ∨
          ∃ upstream draft received todo,
            t.pc = .serving x (.shaping upstream draft) (.change (.resumed received) :: todo)) := by
  rw [Task.resumes?]
  constructor
  · intro h
    split at h
    next x upstream draft received hpc =>
      cases h
      exact ⟨x, rfl, .inl ⟨upstream, draft, received, hpc⟩⟩
    next x upstream draft received todo hpc =>
      cases h
      exact ⟨x, rfl, .inr ⟨upstream, draft, received, todo, hpc⟩⟩
    next => cases h
  · rintro ⟨x, rfl, ⟨upstream, draft, received, hpc⟩ | ⟨upstream, draft, received, todo, hpc⟩⟩ <;>
      rw [hpc]

/-- A task that resumes an exchange forwards it, and has no end of it to write. -/
theorem Task.pausing_of_resumes {t : Task} {id : Nat} (h : t.resumes? = some id) :
    t.at? Op.pausing = some id := by
  obtain ⟨x, rfl, ⟨_, _, _, hpc⟩ | ⟨_, _, _, _, hpc⟩⟩ := Task.resumes?_eq_some.mp h <;>
    exact Task.at?_eq_some.mpr ⟨x, _, _, hpc, rfl, rfl⟩

/-! ## What keeps the traces -/

/-- A pause lasts until it is cut off, or ended by its own code. -/
theorem Task.Moved.awaiting {s : State} {now k : Nat} {t t' : Task} {a : Answer} {sec : Section}
    (h : t.Moved s now k a sec t') {id : Nat} (ht : t.awaiting? = some id) :
    sec = .removeBreakpoint id ∨ ((a = .deadline ∨ a = .drop) ∧ t.pausedOn? = some id) := by
  obtain ⟨x, upstream, draft, hpc, rfl⟩ := Task.awaiting?_eq_some.mp ht
  have hpaused : t.pausedOn? = some x.id := by rw [Task.pausedOn?, hpc]
  cases h.goes hpc with
  | drop => exact .inr ⟨.inr rfl, hpaused⟩
  | deadline => exact .inr ⟨.inl rfl, hpaused⟩
  | asked _ hasked => cases hasked.early
  | answered hanswered =>
      cases hanswered with
      | woken => exact .inl rfl
      | onward _ _ _ response _ hop => cases hop

/-- Who resumes an exchange goes on to write the outcome, unless it is cut off. -/
theorem Task.Moved.resumes {s : State} {now k : Nat} {t t' : Task} {a : Answer} {sec : Section}
    (h : t.Moved s now k a sec t') {id : Nat} (ht : t.resumes? = some id) :
    t'.resumes? = some id ∨ (∃ received, sec = .update id (.resumed received)) ∨
      ((a = .deadline ∨ a = .drop) ∧ t.pausedOn? = some id) := by
  obtain ⟨x, rfl, ⟨upstream, draft, received, hpc⟩ | ⟨upstream, draft, received, todo, hpc⟩⟩ :=
    Task.resumes?_eq_some.mp ht
  · have hpaused : t.pausedOn? = some x.id := by rw [Task.pausedOn?, hpc]
    cases h.goes hpc with
    | drop => exact .inr (.inr ⟨.inr rfl, hpaused⟩)
    | deadline => exact .inr (.inr ⟨.inl rfl, hpaused⟩)
    | asked _ hasked => cases hasked.early
    | answered hanswered =>
        cases hanswered with
        | woken => exact .inl rfl
        | onward _ _ _ response _ hop => cases hop
  · cases h.goes hpc with
    | errand => exact .inr (.inl ⟨received, rfl⟩)

/-- A change that leaves a capture waiting is not the end of the pause. -/
theorem Capture.waiting_of_apply {c : Capture} {now : Nat} {change : Change}
    (h : (c.apply now change).breakpointState = .waiting) :
    c.breakpointState = .waiting ∧ ∀ received, change ≠ .resumed received := by
  cases change with
  | resumed received =>
      rw [Capture.apply, BreakpointState.after.eq_def] at h
      split at h
      · cases h
      · split at h <;> cases h
  | finish started error =>
      rw [Capture.apply] at h
      split at h <;> exact ⟨h, by simp⟩
  | _ => exact ⟨h, by simp⟩

/-- Only `finish` ends the pending phase. -/
theorem Capture.phase_of_apply (c : Capture) (now : Nat) (change : Change) :
    (c.apply now change).phase = c.phase ∨ ∃ started error, change = .finish started error := by
  cases change with
  | finish started error => exact .inr ⟨started, error, rfl⟩
  | _ => exact .inl rfl

theorem Errand.section_eq_update {errand : Errand} {id id' : Nat} {change : Change}
    (h : errand.section id' = .update id change) : errand = .change change ∧ id' = id := by
  cases errand with
  | change c =>
      cases h
      exact ⟨rfl, rfl⟩
  | announce => cases h
  | removeBody => cases h

/-- Who finishes an exchange: its forwarding task, a party that `finishes?` names, or the
drop of its last reference. -/
theorem Engine.Moved.finishes {s : Engine} {e : Event} {p : Parties} {id started : Nat}
    {error : Option String} (h : s.Moved e (.update id (.finish started error)) p) :
    (∃ t ∈ s.tasks, ∃ x op todo, t.pc = .serving x op (.change (.finish started error) :: todo) ∧
      x.id = id ∧ op.hands = true) ∨
    s.finishes? e = some id ∨ ∃ x ∈ s.exchanges, x.id = id ∧ x.todo ≠ [] := by
  generalize hsec : Section.update id (.finish started error) = sec at h
  cases h with
  | lifecycle hlife =>
      rcases (outlives_lifecycle hlife).sec with rfl | ⟨settings, address, rfl⟩ | rfl | rfl <;>
        cases hsec
  | task ht hallows hmoved =>
      cases hmoved with
      | errand hpc =>
          rename_i op _ _
          obtain ⟨rfl, rfl⟩ := Errand.section_eq_update hsec.symm
          by_cases hop : op.hands = true
          · exact .inl ⟨_, List.mem_of_getElem? ht, _, _, _, hpc, rfl, hop⟩
          · refine .inr (.inl ?_)
            simp [finishes?, ht, hpc, Errand.finishes, hop]
      | asked hpc hstep hasked =>
          rcases Act.section_of_mild (Act.mild_of_quiet hasked.act) _ _ with heq | ⟨c, hmild, heq⟩
          · cases hsec.trans heq
          · cases hsec.trans heq
            cases hmild
      | answered hpc hanswered =>
          cases hanswered with
          | shaped upstream draft op c hop hmild =>
              cases hsec
              cases hmild
          | _ => cases hsec
      | admits _ hpc hsec' => rcases hsec' with rfl | ⟨token, rfl⟩ <;> cases hsec
      | unauthorized hpc hsec' => rcases hsec' with rfl | ⟨token, rfl⟩ <;> cases hsec
      | _ => cases hsec
  | body ht hbody hstep _ =>
      rename_i k a t party move
      unfold BodyParty.step at hstep
      split at hstep <;> cases hstep
      next htodo =>
        obtain ⟨rfl, rfl⟩ := Errand.section_eq_update hsec.symm
        refine .inr (.inl ?_)
        simp [finishes?, ht, hbody, htodo, Errand.finishes]
      all_goals cases hsec
  | store hk hstep =>
      unfold StoreTask.step at hstep
      simp only at hstep
      split at hstep <;> cases hstep
      · split at hsec <;> cases hsec
      all_goals cases hsec
  | exchange hx htodo =>
      obtain ⟨rfl, rfl⟩ := Errand.section_eq_update hsec.symm
      exact .inr (.inr ⟨_, List.mem_of_getElem? hx, rfl, by simp [htodo]⟩)
  | _ => cases hsec

theorem Engine.Paused.step {crypto : Crypto} {s s' : Engine} {e : Event}
    (hr : (engine crypto).Reachable s) (h : s.Paused) (hguard : pausesEnd s e)
    (hstep : s.step crypto e = some s') : s'.Paused := by
  obtain ⟨sec, p, hmoved, hshared, hparties⟩ := step_cases hstep
  obtain ⟨hcuts, hfinishes, hopens⟩ := hguard
  have htasks : s'.tasks = p.tasks := by rw [hparties, Parties.log_tasks]
  have huncut {k : Nat} {t : Task} {a : Answer} {id : Nat} (he : e = .task k a)
      (ht : s.tasks[k]? = some t) (ha : a = .deadline ∨ a = .drop) (hid : t.pausedOn? = some id) :
      ¬ s.shared.Retained id := by
    refine hcuts id ?_
    rcases ha with rfl | rfl <;> simp [he, cutsOff?, ht, hid]
  -- a task that resumes a capture still does so, unless the capture is given its outcome
  have hresumes {t : Task} (ht : t ∈ s.tasks) {id : Nat} (hid : t.resumes? = some id)
      (hret : s.shared.Retained id) (hne : ∀ received, sec ≠ .update id (.resumed received)) :
      ∃ t' ∈ s'.tasks, t'.resumes? = some id := by
    obtain ⟨i, hi⟩ := List.mem_iff_getElem?.mp ht
    obtain ⟨t', ht', hbecame⟩ := hmoved.became hi
    rw [htasks]
    refine ⟨t', List.mem_of_getElem? ht', ?_⟩
    cases hbecame with
    | stays => exact hid
    | moves hallows hm =>
        rcases hm.resumes hid with hid' | ⟨received, hsec⟩ | ⟨ha, hpaused⟩
        · exact hid'
        · exact absurd hsec (hne received)
        · exact absurd hret (huncut rfl hi ha hpaused)
    | polls hbody hstep _ => exact hid
    | hands hpc =>
        obtain ⟨x, -, ⟨_, _, _, hpc'⟩ | ⟨_, _, _, _, hpc'⟩⟩ := Task.resumes?_eq_some.mp hid <;>
          cases hpc'.symm.trans hpc
    | receives hresolver hreceive =>
        rw [Task.receive] at hreceive
        split at hreceive <;> cases hreceive
        next hpc =>
          rw [Task.resumes?, hpc] at hid
          exact hid
  constructor
  · intro id k hkey
    rw [hshared] at hkey
    rw [htasks]
    rcases State.mem_apply_breakpoints hkey with ⟨hold, hne⟩ | ⟨status, rfl⟩
    · obtain ⟨t, ht, hawaits⟩ := h.keys id k hold
      obtain ⟨t', ht', hbecame⟩ := hmoved.became ht
      have hret := (filed hr).breakpoints id (List.mem_map_of_mem hold)
      refine ⟨t', ht', ?_⟩
      cases hbecame with
      | stays => exact hawaits
      | moves hallows hm =>
          rcases hm.awaiting hawaits with hsec | ⟨ha, hpaused⟩
          · exact absurd hsec hne
          · exact absurd hret (huncut rfl ht ha hpaused)
      | polls hbody hstep _ => exact hawaits
      | hands hpc =>
          obtain ⟨x, _, _, hpc', -⟩ := Task.awaiting?_eq_some.mp hawaits
          cases hpc'.symm.trans hpc
      | receives hresolver hreceive =>
          -- the decision is for the exchange the task is paused on, whose sender it has taken
          rename_i id' decision
          have hmem := List.mem_of_getElem? hresolver
          obtain ⟨u, hu, hpast⟩ := (senders hr).past id' k (.inr ⟨decision, hmem⟩)
          cases ht.symm.trans hu
          obtain ⟨x, _, _, hpc, rfl⟩ := Task.awaiting?_eq_some.mp hawaits
          rcases hpast with hgone | ⟨y, op, todo, hpc', rfl, -⟩
          · cases hpc.symm.trans hgone
          · cases hpc.symm.trans hpc'
            exact absurd hmem ((senders hr).taken _ _ _ _ hold)
    · obtain ⟨t, t', x, upstream, draft, -, -, ht', rfl, -, hpc', -⟩ := hmoved.opens
      exact ⟨t', ht', Task.awaiting?_eq_some.mpr ⟨x, _, _, hpc', rfl⟩⟩
  · intro c' hc' hwaiting
    rw [hshared] at hc'
    rcases (consistent hr).ordered.mem_apply hc' with ⟨hold, hne, -⟩ | ⟨c, hc, change, rfl, rfl⟩ |
      ⟨c, hc, task, status, rfl, rfl⟩ | ⟨request, destination, clientProfileId, replayOf, rfl, rfl⟩
    · obtain ⟨hpending, t, ht, hid⟩ := h.waiting c' hold hwaiting
      exact ⟨hpending, hresumes ht hid ⟨c', hold, rfl⟩ fun received => hne _⟩
    · obtain ⟨hwaits, hchange⟩ := Capture.waiting_of_apply hwaiting
      obtain ⟨hpending, t, ht, hid⟩ := h.waiting c hc hwaits
      have hret : s.shared.Retained c.id := ⟨c, hc, rfl⟩
      rw [Capture.apply_id]
      refine ⟨?_, hresumes ht hid hret fun received heq => hchange received (by cases heq; rfl)⟩
      rcases c.phase_of_apply s.clock change with heq | ⟨started, error, rfl⟩
      · exact heq.trans hpending
      · exfalso
        rcases hmoved.finishes with ⟨u, hu, x, op, todo, hpc, hx, hop⟩ | hother |
          ⟨x, hx, hxid, htodo⟩
        · -- the task that resumes the exchange would be the one that finishes it
          obtain ⟨i, hi⟩ := List.mem_iff_getElem?.mp ht
          obtain ⟨j, hj⟩ := List.mem_iff_getElem?.mp hu
          obtain ⟨y, op', todo', hpc', hop', hy⟩ := Task.at?_eq_some.mp (Task.pausing_of_resumes hid)
          cases single hr hi hj
            (Task.at?_eq_some.mpr ⟨y, _, _, hpc', Op.hands_of_pausing hop', hy⟩)
            (Task.at?_eq_some.mpr ⟨x, _, _, hpc, hop, hx⟩)
          cases hi.symm.trans hj
          obtain ⟨z, -, ⟨_, _, _, hpc''⟩ | ⟨_, _, _, _, hpc''⟩⟩ := Task.resumes?_eq_some.mp hid <;>
            cases hpc''.symm.trans hpc
        · exact hfinishes c.id hother hret t ht hid
        · exact buried hr x hx htodo t ht (hxid ▸ Task.pausing_of_resumes hid)
    · obtain ⟨t, t', x, upstream, draft, he, ht, ht', hx, hpc, hpc', hbreak, hmodify⟩ :=
        hmoved.opens
      refine ⟨hopens c.id ?_ c hc rfl, t', htasks ▸ List.mem_of_getElem? ht', ?_⟩
      · rw [he]
        simp [opens?, ht, hpc, hbreak, hx, hmodify]
      · exact Task.resumes?_eq_some.mpr ⟨x, hx, .inl ⟨_, _, _, hpc'⟩⟩
    · cases hwaiting

theorem Engine.paused {crypto : Crypto} {s : Engine} (h : (engine crypto).Reach pausesEnd s) :
    s.Paused :=
  h.invariant_along ⟨fun _ _ hkey => (nomatch hkey), fun _ hc => nomatch hc⟩
    fun hr hs hguard hstep => hs.step hr.reachable hguard hstep

/-! ## The result -/

theorem Task.resumes_of_awaiting {t : Task} {id : Nat} (h : t.awaiting? = some id) :
    t.resumes? = some id := by
  obtain ⟨x, upstream, draft, hpc, hid⟩ := Task.awaiting?_eq_some.mp h
  exact Task.resumes?_eq_some.mpr ⟨x, hid, .inl ⟨upstream, draft, none, hpc⟩⟩

/-- A key of `breakpoints` names a task that awaits its decision, and a capture that waits is
pending. -/
structure Engine.PausesMatch (s : Engine) : Prop where
  keys : ∀ id k, (id, k) ∈ s.shared.breakpoints →
    ∃ t, s.tasks[k]? = some t ∧ t.awaiting? = some id
  waiting : ∀ c ∈ s.shared.traffic, c.breakpointState = .waiting → c.phase = .pending

/-- **Breakpoints match pauses**, as long as every pause opens on a pending capture, is not
cut off while its capture is there, and ends before anyone else finishes the exchange: and
where no task is paused on an exchange or resumes it, nothing is left of a pause. -/
theorem breakpoints_match_pauses {crypto : Crypto} {s : Engine}
    (h : (engine crypto).Reach pausesEnd s) :
    s.PausesMatch ∧
    ∀ id, (∀ t ∈ s.tasks, t.resumes? ≠ some id) →
      (∀ k, (id, k) ∉ s.shared.breakpoints) ∧
      ∀ c ∈ s.shared.traffic, c.id = id → c.breakpointState ≠ .waiting := by
  have hpaused := Engine.paused h
  refine ⟨⟨hpaused.keys, fun c hc hwaiting => (hpaused.waiting c hc hwaiting).1⟩, fun id hnone => ?_⟩
  constructor
  · intro k hkey
    obtain ⟨t, ht, hawaits⟩ := hpaused.keys id k hkey
    exact hnone t (List.mem_of_getElem? ht) (Task.resumes_of_awaiting hawaits)
  · rintro c hc rfl hwaiting
    obtain ⟨-, t, ht, hid⟩ := hpaused.waiting c hc hwaiting
    exact hnone t ht hid

/-- A configuration that pauses every local response. -/
def breakingOnResponses : ProxyConfig := { ProxyConfig.default with breakOnResponses := true }

/-- A request up to the pause of its response. -/
def untilPaused : List Event :=
  starting breakingOnResponses ++ [.accept] ++
    answers 0 (untilSent (plainGet localhost) ++ [.upstream (some ⟨200, [], false, []⟩), .go, .go])

/-- The decision has been sent, and another request is paused. -/
def resumedAndPaused : List Event :=
  untilPaused ++ [.resolve 1 (some 201) none none, .send 0] ++ answers 0 [.wake, .go, .go] ++
    [.accept] ++
    answers 1 (untilSent (plainGet localhost) ++ [.upstream (some ⟨200, [], false, []⟩), .go, .go])

theorem second_pause_is_awaited :
    ∃ t, (((engine .unused).run resumedAndPaused).get (by decide)).tasks[1]? = some t ∧
      t.awaiting? = some 2 :=
  (breakpoints_match_pauses
    (Machine.reach_get (m := engine .unused) resumedAndPaused (by decide)
      (by decide))).1.keys 2 1 (by decide)

/-- The deadline of the request comes first. -/
def pausedPastDeadline : List Event := untilPaused ++ answers 0 [.deadline, .go, .go, .go]

/-- A pause that is cut off leaves its sender, and a capture that has failed and waits. -/
theorem deadline_leaves_breakpoint :
    (∃ s, (engine .unused).run pausedPastDeadline = some s ∧ s.shared.breakpoints = [(1, 0)] ∧
      (∀ t ∈ s.tasks, t.resumes? = none) ∧
      s.shared.traffic.map (fun c => (c.id, c.breakpointState, c.phase)) =
        [(1, .waiting, .error)]) ∧
    ¬ ∀ s, (engine .unused).Reachable s → s.PausesMatch := by
  constructor
  · exact ⟨((engine .unused).run pausedPastDeadline).get (by decide),
      (Option.some_get _).symm, by decide, by decide, by decide⟩
  · intro hall
    have hwaiting := (hall _ (Machine.reachable_get (m := engine .unused)
      pausedPastDeadline (by decide))).waiting
    exact absurd hwaiting (by decide)

end SippinSoda
