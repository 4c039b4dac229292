import SippinSoda.Engine.Forwarder
import SippinSoda.Modification

/-!
# Decisions

A call to `resolve_response_breakpoint` takes the sender of a pause out of the map and sends
its decision, which the paused task finds when it wakes.

* **Spent** — a sender is taken by one call at most, and no other comes to the exchange;
* **Heeded** — what a call has sent is what the pause ends with, and nothing else is;
* **decisions_are_kept** — what this means for calls, responses and captures.

The channel's `send` succeeds until the receiver is dropped. At the expiry the receiver is
polled once more before that, and a decision sent in between is lost.
-/

namespace SippinSoda

/-! ## Senders are used once -/

/-- A decision the checks of `resolve_response_breakpoint` let through. -/
def BreakpointDecision.Accepted (decision : BreakpointDecision) : Prop :=
  ∃ status body contentType, BreakpointDecision.compile status body contentType = .ok decision

/-- The exchange whose sender a call has taken, and has not lost to a closed channel. -/
def Resolver.took? : Resolver → Option Nat
  | .sending id _ _ => some id
  | .returned id (.ok _) => some id
  | .returned _ (.error _) => none

/-- What an event makes of the calls. -/
inductive Engine.Resolves (s : Engine) (sec : Section) : List Resolver → Prop
  | same : Resolves s sec s.resolvers
  | refused {id message} : Resolves s sec (s.resolvers ++ [.returned id (.error message)])
  | takes {id task decision} : sec = .removeBreakpoint id → (id, task) ∈ s.shared.breakpoints →
      decision.Accepted → Resolves s sec (s.resolvers ++ [.sending id task decision])
  | sent {k id task decision} : s.resolvers[k]? = some (.sending id task decision) →
      Resolves s sec (s.resolvers.set k (.returned id (.ok decision)))
  | closed {k id task decision message} : s.resolvers[k]? = some (.sending id task decision) →
      Resolves s sec (s.resolvers.set k (.returned id (.error message)))

theorem Engine.Moved.resolves {s : Engine} {e : Event} {sec : Section} {p : Parties}
    (h : s.Moved e sec p) : s.Resolves sec p.resolvers := by
  cases h with
  | lifecycle hlife => exact (outlives_lifecycle hlife).resolvers ▸ .same
  | unresolved => exact .refused
  | resolve hkey hcompile => exact .takes rfl hkey ⟨_, _, _, hcompile⟩
  | receive hresolver => exact .sent hresolver
  | late hresolver => exact .sent hresolver
  | closed hresolver => exact .closed hresolver
  | _ => exact .same

/-- A call that has a sender had it, or has just taken it from the map. -/
theorem Engine.Resolves.took {s : Engine} {sec : Section} {l : List Resolver}
    (h : s.Resolves sec l) {r : Resolver} (hr : r ∈ l) {id : Nat} (hid : r.took? = some id) :
    (∃ r' ∈ s.resolvers, r'.took? = some id) ∨
      sec = .removeBreakpoint id ∧ ∃ task, (id, task) ∈ s.shared.breakpoints := by
  cases h with
  | same => exact .inl ⟨r, hr, hid⟩
  | refused =>
      rcases List.mem_append.mp hr with hr | hr
      · exact .inl ⟨r, hr, hid⟩
      · rw [List.mem_singleton.mp hr] at hid
        cases hid
  | takes hsec hkey haccepted =>
      rcases List.mem_append.mp hr with hr | hr
      · exact .inl ⟨r, hr, hid⟩
      · rw [List.mem_singleton.mp hr] at hid
        cases hid
        exact .inr ⟨hsec, _, hkey⟩
  | sent hk =>
      rcases List.mem_or_eq_of_mem_set hr with hr | rfl
      · exact .inl ⟨r, hr, hid⟩
      · exact .inl ⟨_, List.mem_of_getElem? hk, hid⟩
  | closed hk =>
      rcases List.mem_or_eq_of_mem_set hr with hr | rfl
      · exact .inl ⟨r, hr, hid⟩
      · cases hid

/-- The sender of a pause is in the map or with one call, and no other pause comes. -/
structure Engine.Spent (s : Engine) : Prop where
  once : SingleOwner Resolver.took? s.resolvers
  keyed : ∀ r ∈ s.resolvers, ∀ id, r.took? = some id → ∀ task, (id, task) ∉ s.shared.breakpoints
  past : ∀ r ∈ s.resolvers, ∀ id, r.took? = some id →
    id < s.shared.nextId ∧ ∀ t ∈ s.tasks, t.at? Op.opening ≠ some id

theorem Engine.Spent.step {crypto : Crypto} {s s' : Engine} {e : Event}
    (hr : (engine crypto).Reachable s) (h : s.Spent) (hstep : s.step crypto e = some s') :
    s'.Spent := by
  obtain ⟨sec, p, hmoved, hshared, hparties⟩ := step_cases hstep
  have htasks : s'.tasks = p.tasks := by rw [hparties, Parties.log_tasks]
  have hresolvers : s'.resolvers = p.resolvers := by rw [hparties, Parties.log_resolvers]
  have hnext : s.shared.nextId ≤ s'.shared.nextId := by
    rw [hshared, State.apply_nextId]
    exact Nat.le_add_right _ _
  refine ⟨?_, fun r hrmem id hid task hkey => ?_, fun r hrmem id hid => ?_⟩
  · have hresolves := hmoved.resolves
    rw [hresolvers]
    generalize p.resolvers = l at hresolves ⊢
    cases hresolves with
    | same => exact h.once
    | refused => exact h.once.append_one fun v hv => nomatch hv
    | takes hsec hkey haccepted =>
        refine h.once.append_one fun v hv r hrmem hid => ?_
        cases hv
        exact h.keyed r hrmem _ hid _ hkey
    | sent hk => exact h.once.set hk fun v hv => .inl hv
    | closed hk => exact h.once.set hk fun v hv => nomatch hv
  · rw [hresolvers] at hrmem
    rw [hshared] at hkey
    rcases State.mem_apply_breakpoints hkey with ⟨hold, hne⟩ | ⟨status, rfl⟩
    · rcases hmoved.resolves.took hrmem hid with ⟨r', hr', hid'⟩ | ⟨hsec, -⟩
      · exact h.keyed r' hr' id hid' task hold
      · exact hne hsec
    · rcases hmoved.resolves.took hrmem hid with ⟨r', hr', hid'⟩ | ⟨hsec, -⟩
      · obtain ⟨t, _, x, upstream, draft, -, ht, -, rfl, hpc, -⟩ := hmoved.opens
        exact (h.past r' hr' x.id hid').2 t (List.mem_of_getElem? ht)
          (Task.at?_eq_some.mpr ⟨_, _, _, hpc, rfl, rfl⟩)
      · cases hsec
  · rw [hresolvers] at hrmem
    have hpast : id < s.shared.nextId ∧ ∀ t ∈ s.tasks, t.at? Op.opening ≠ some id := by
      rcases hmoved.resolves.took hrmem hid with ⟨r', hr', hid'⟩ | ⟨-, task, hkey⟩
      · exact h.past r' hr' id hid'
      · exact (senders hr).once id task (.inl hkey)
    refine ⟨Nat.lt_of_lt_of_le hpast.1 hnext, fun t' ht' hopening => ?_⟩
    rcases hmoved.at Op.initial_opening (htasks ▸ ht') hopening with ⟨t, ht, hold⟩ | rfl
    · exact hpast.2 t ht hold
    · exact Nat.lt_irrefl _ hpast.1

theorem Engine.spent {crypto : Crypto} {s : Engine} (h : (engine crypto).Reachable s) : s.Spent :=
  h.invariant_along
    ⟨SingleOwner.nil, fun _ hr => absurd hr List.not_mem_nil, fun _ hr => absurd hr List.not_mem_nil⟩
    fun hr hs _ hstep => hs.step hr hstep

/-! ## Decisions are accepted -/

/-- The decision a call sends or has sent. -/
def Resolver.decision? : Resolver → Option BreakpointDecision
  | .sending _ _ decision => some decision
  | .returned _ (.ok decision) => some decision
  | .returned _ (.error _) => none

theorem Engine.accepted {crypto : Crypto} {s : Engine} (h : (engine crypto).Reachable s) :
    ∀ r ∈ s.resolvers, ∀ decision, r.decision? = some decision → decision.Accepted := by
  refine h.invariant (I := fun s => ∀ r ∈ s.resolvers, ∀ decision, r.decision? = some decision →
    decision.Accepted) (fun _ hr => absurd hr List.not_mem_nil) ?_
  intro s s' e hs _ hstep r hr decision hdecision
  obtain ⟨sec, p, hmoved, -, hparties⟩ := step_cases hstep
  rw [hparties, Parties.log_resolvers] at hr
  have hresolves := hmoved.resolves
  generalize p.resolvers = l at hresolves hr
  cases hresolves with
  | same => exact hs r hr decision hdecision
  | refused =>
      rcases List.mem_append.mp hr with hr | hr
      · exact hs r hr decision hdecision
      · rw [List.mem_singleton.mp hr] at hdecision
        cases hdecision
  | takes hsec hkey haccepted =>
      rcases List.mem_append.mp hr with hr | hr
      · exact hs r hr decision hdecision
      · rw [List.mem_singleton.mp hr] at hdecision
        cases hdecision
        exact haccepted
  | sent hk =>
      rcases List.mem_or_eq_of_mem_set hr with hr | rfl
      · exact hs r hr decision hdecision
      · exact hs _ (List.mem_of_getElem? hk) decision hdecision
  | closed hk =>
      rcases List.mem_or_eq_of_mem_set hr with hr | rfl
      · exact hs r hr decision hdecision
      · cases hdecision

/-! ## What a pause ends with -/

/-- What an operation has received, or its pause has ended with. -/
def Op.received (seen : Seen) : Op → Option BreakpointDecision
  | .paused _ _ received => received
  | _ => seen.decision

theorem Op.received_of_early {op : Op} (h : op.early = true) (seen : Seen) :
    op.received seen = seen.decision := by
  cases op <;> first | rfl | cases h

theorem Op.received_of_response {op : Op} {response : Response} (h : op.response? = some response)
    (seen : Seen) : op.received seen = seen.decision := by
  cases op <;> first | rfl | cases h

/-- A move of an operation keeps what has been received, or is made before there is anything. -/
theorem Answered.received {http2 : Bool} {s : State} {x : Handling} {seen : Seen} {op : Op}
    {a : Answer} {m : Move} (h : Answered http2 s x seen op a m) :
    op.opening = true ∧ (m.op.received m.seen = none ∨ m.op.received m.seen = seen.decision) ∨
      m.op.received m.seen = op.received seen := by
  cases h with
  | looked => exact .inl ⟨rfl, .inr rfl⟩
  | opened => exact .inl ⟨rfl, .inl rfl⟩
  | unopened => exact .inl ⟨rfl, .inr rfl⟩
  | shaped upstream draft op c hop => rcases hop with rfl | rfl <;> exact .inr rfl
  | onward op op' a response todo hop hop' =>
      exact .inr ((Op.received_of_response hop' _).trans (Op.received_of_response hop _).symm)
  | _ => exact .inr rfl

/-- What a task has received after a step is what it had received, unless it has been refused
or has not come to its pause. -/
theorem Task.Moved.received {s : State} {now k : Nat} {t t' : Task} {a : Answer} {sec : Section}
    (h : t.Moved s now k a sec t') {x : Handling} {op : Op} {todo : List Errand}
    (hpc : t.pc = .serving x op todo) {x' : Handling} {op' : Op} {todo' : List Errand}
    (hpc' : t'.pc = .serving x' op' todo') :
    x' = x ∧ (op'.received t'.seen = op.received t.seen ∨
      ((∃ response, op' = .refused response) ∨ op.opening = true) ∧
        (op'.received t'.seen = none ∨ op'.received t'.seen = t.seen.decision)) := by
  cases h.goes hpc with
  | errand =>
      cases hpc'
      exact ⟨rfl, .inl rfl⟩
  | drop => cases hpc'
  | deadline =>
      cases hpc'
      exact ⟨rfl, .inr ⟨.inl ⟨_, rfl⟩, .inr rfl⟩⟩
  | asked hstep hasked =>
      rename_i m
      cases hpc'
      refine ⟨rfl, .inl ?_⟩
      show m.op.received m.seen = _
      rw [Op.received_of_early hasked.early, ← hasked.decision]
      rcases hasked.next with hnext | ⟨response, heq⟩ | ⟨authority, upstream, heq, -⟩
      · exact Op.received_of_early hnext _
      · rw [heq]
        rfl
      · rw [heq]
        rfl
  | answered hanswered =>
      cases hpc'
      exact ⟨rfl, hanswered.received.elim (fun h => .inr ⟨.inr h.1, h.2⟩) .inl⟩

/-- Before it ends, a pause has left no decision in the history. -/
theorem Drafted.received {http2 : Bool} {x : Handling} {seen : Seen} {op : Op}
    (h : Drafted http2 x seen op) : seen.decision = none ∨ op.received seen = seen.decision := by
  cases h with
  | early hearly hdecision => exact .inl hdecision
  | paused _ hdecision => exact .inl hdecision
  | returning hresponse => exact .inr (Op.received_of_response hresponse seen)
  | _ => exact .inr rfl

/-- A task that begins an exchange has received nothing. -/
theorem Task.Moved.begun {s : State} {now k : Nat} {t t' : Task} {a : Answer} {sec : Section}
    (h : t.Moved s now k a sec t') (ht : t.Told)
    (hnot : ∀ x op todo, t.pc ≠ .serving x op todo) {x : Handling} {op : Op} {todo : List Errand}
    (hpc' : t'.pc = .serving x op todo) :
    op.received t'.seen = none ∧ x.id = s.nextId := by
  cases h with
  | errand hpc => exact absurd hpc (hnot _ _ _)
  | deadline hpc => exact absurd hpc (hnot _ _ _)
  | asked hpc => exact absurd hpc (hnot _ _ _)
  | answered hpc => exact absurd hpc (hnot _ _ _)
  | begin hpc hreplay =>
      cases hpc'
      rw [Task.Told, hpc] at ht
      cases ht with
      | classified hseen =>
          have hdecision : t.seen.decision = none := congrArg Seen.decision hseen
          refine ⟨?_, rfl⟩
          split <;> exact hdecision
  | _ => cases hpc'

/-- A refused operation only has its errands left. -/
theorem Task.Moved.refused {s : State} {now k : Nat} {t t' : Task} {a : Answer} {sec : Section}
    (h : t.Moved s now k a sec t') {x : Handling} {response : Response} {todo : List Errand}
    (hpc : t.pc = .serving x (.refused response) todo) {x' : Handling} {op' : Op}
    {todo' : List Errand} (hpc' : t'.pc = .serving x' op' todo') : op' = .refused response := by
  cases h.goes hpc with
  | errand =>
      cases hpc'
      rfl
  | drop => cases hpc'
  | deadline hawaits => cases hawaits
  | asked _ hasked => cases hasked.early
  | answered hanswered =>
      cases hanswered with
      | onward _ _ _ _ _ hop => cases hop

/-- What a pause has received or ended with was sent by a call that has returned. -/
def Engine.Sent (s : Engine) : Prop :=
  ∀ t ∈ s.tasks, ∀ x op todo decision, t.pc = .serving x op todo →
    op.received t.seen = some decision → .returned x.id (.ok decision) ∈ s.resolvers

/-- A decision that has been sent stays so. -/
theorem Engine.Resolves.returned {s : Engine} {sec : Section} {l : List Resolver}
    (h : s.Resolves sec l) {id : Nat} {decision : BreakpointDecision}
    (hmem : .returned id (.ok decision) ∈ s.resolvers) : .returned id (.ok decision) ∈ l := by
  cases h with
  | same => exact hmem
  | refused => exact List.mem_append_left _ hmem
  | takes => exact List.mem_append_left _ hmem
  | sent hk =>
      obtain ⟨i, hi⟩ := List.mem_iff_getElem?.mp hmem
      refine List.mem_iff_getElem?.mpr ⟨i, ?_⟩
      rw [List.getElem?_set_ne (fun heq => ?_), hi]
      cases (heq ▸ hk).symm.trans hi
  | closed hk =>
      obtain ⟨i, hi⟩ := List.mem_iff_getElem?.mp hmem
      refine List.mem_iff_getElem?.mpr ⟨i, ?_⟩
      rw [List.getElem?_set_ne (fun heq => ?_), hi]
      cases (heq ▸ hk).symm.trans hi

/-- The task a decision is sent to is paused on the exchange of its sender. -/
theorem Engine.Senders.receiver {s : Engine} (h : s.Senders) {k id i : Nat} {t t' : Task}
    {decision : BreakpointDecision} (hresolver : s.resolvers[k]? = some (.sending id i decision))
    (ht : s.tasks[i]? = some t) (hreceive : t.receive decision = some t') :
    ∃ x upstream draft, x.id = id ∧ t.pc = .serving x (.paused upstream draft none) [] ∧
      t' = { t with pc := .serving x (.paused upstream draft (some decision)) [] } := by
  obtain ⟨u, hu, hpast⟩ := h.past id i (.inr ⟨decision, List.mem_of_getElem? hresolver⟩)
  cases ht.symm.trans hu
  rw [Task.receive] at hreceive
  split at hreceive <;> cases hreceive
  next x upstream draft hpc =>
    refine ⟨x, upstream, draft, ?_, hpc, rfl⟩
    rcases hpast with hgone | ⟨y, op, todo, hpc', hid, -⟩
    · cases hpc.symm.trans hgone
    · cases hpc.symm.trans hpc'
      exact hid

/-- A call whose decision arrives has returned. -/
theorem Engine.Moved.delivered {s : Engine} {k id i task : Nat} {p : Parties} {t t' : Task}
    {decision : BreakpointDecision} (h : s.Moved (.send k) .nothing p)
    (hresolver : s.resolvers[k]? = some (.sending id task decision)) (ht : s.tasks[i]? = some t)
    (hi : p.tasks[i]? = some t') (hne : t' ≠ t) : .returned id (.ok decision) ∈ p.resolvers := by
  cases h with
  | lifecycle hlife => cases hlife
  | receive hresolver' =>
      cases hresolver.symm.trans hresolver'
      exact List.mem_set (List.getElem?_eq_some_iff.mp hresolver).1 _
  | closed => exact absurd (Option.some.inj (hi.symm.trans ht)) hne

theorem Engine.Sent.step {crypto : Crypto} {s s' : Engine} {e : Event}
    (hr : (engine crypto).Reachable s) (h : s.Sent) (hstep : s.step crypto e = some s') :
    s'.Sent := by
  obtain ⟨sec, p, hmoved, -, hparties⟩ := step_cases hstep
  intro t' ht' x' op' todo' decision hpc' hdecision
  rw [hparties, Parties.log_tasks] at ht'
  rw [hparties, Parties.log_resolvers]
  obtain ⟨i, hi⟩ := List.mem_iff_getElem?.mp ht'
  rcases hmoved.came hi with ⟨t, ht, hbecame⟩ | ⟨-, harrives⟩
  · have hmem := List.mem_of_getElem? ht
    -- what the task had received is still there
    have keep {op : Op} {todo : List Errand} (hpc : t.pc = .serving x' op todo)
        (hold : op.received t.seen = some decision) : .returned x'.id (.ok decision) ∈ p.resolvers :=
      hmoved.resolves.returned (h t hmem x' op todo decision hpc hold)
    cases hbecame with
    | stays => exact keep hpc' hdecision
    | moves hallows hm =>
        by_cases hserves : ∃ x op todo, t.pc = .serving x op todo
        · obtain ⟨x, op, todo, hpc⟩ := hserves
          obtain ⟨-, -, hdrafted⟩ := (told hr t hmem).of_serving hpc
          obtain ⟨rfl, hsame | ⟨-, hnone | hseen⟩⟩ := hm.received hpc hpc'
          · exact keep hpc (hsame ▸ hdecision)
          · cases hnone.symm.trans hdecision
          · rw [hseen] at hdecision
            rcases hdrafted.received with hnone | hsame
            · cases hnone.symm.trans hdecision
            · exact keep hpc (hsame.trans hdecision)
        · have hnot : ∀ x op todo, t.pc ≠ .serving x op todo :=
            fun x op todo hpc => hserves ⟨x, op, todo, hpc⟩
          cases (hm.begun (told hr t hmem) hnot hpc').1.symm.trans hdecision
    | polls => exact keep hpc' hdecision
    | hands hpc =>
        cases hpc'
        exact keep hpc hdecision
    | receives hresolver hreceive =>
        obtain ⟨x, upstream, draft, rfl, hpc, rfl⟩ := (senders hr).receiver hresolver ht hreceive
        cases hpc'
        cases hdecision
        refine hmoved.delivered hresolver ht hi fun heq => ?_
        rw [← heq] at hpc
        cases hpc
  · cases harrives <;> cases hpc' <;> cases hdecision

theorem Engine.sent {crypto : Crypto} {s : Engine} (h : (engine crypto).Reachable s) : s.Sent :=
  h.invariant_along (fun _ ht => absurd ht List.not_mem_nil) fun hr hs _ hstep => hs.step hr hstep

/-- No decision is sent after the last look at its receiver. -/
def decisionsArrive (_ : Engine) : Event → Prop
  | .sendLate _ => False
  | _ => True

instance : ∀ s e, Decidable (decisionsArrive s e) := by
  intro s e
  cases e <;> unfold decisionsArrive <;> infer_instance

/-- What a call has sent is what the forwarder of the exchange has received, unless the request
has been refused since. -/
def Engine.Heeded (s : Engine) : Prop :=
  ∀ id decision, .returned id (.ok decision) ∈ s.resolvers → ∀ t ∈ s.tasks, ∀ x op todo,
    t.pc = .serving x op todo → x.id = id → op.hands = true →
    (∃ response, op = .refused response) ∨ op.received t.seen = some decision

/-- A call that has sent its decision had sent it, or the decision has just arrived. -/
theorem Engine.Moved.returned {s : Engine} {e : Event} {sec : Section} {p : Parties}
    (h : s.Moved e sec p) (hguard : decisionsArrive s e) {id : Nat}
    {decision : BreakpointDecision} (hmem : .returned id (.ok decision) ∈ p.resolvers) :
    .returned id (.ok decision) ∈ s.resolvers ∨
      ∃ k task t t', e = .send k ∧ s.resolvers[k]? = some (.sending id task decision) ∧
        s.tasks[task]? = some t ∧ t.receive decision = some t' ∧ p.tasks[task]? = some t' := by
  cases h with
  | lifecycle hlife => exact .inl ((outlives_lifecycle hlife).resolvers ▸ hmem)
  | unresolved =>
      rcases List.mem_append.mp hmem with hmem | hmem
      · exact .inl hmem
      · cases List.mem_singleton.mp hmem
  | resolve =>
      rcases List.mem_append.mp hmem with hmem | hmem
      · exact .inl hmem
      · cases List.mem_singleton.mp hmem
  | receive hk ht hreceive =>
      rcases List.mem_or_eq_of_mem_set hmem with hmem | heq
      · exact .inl hmem
      · cases heq
        have hlt := (List.getElem?_eq_some_iff.mp ht).1
        exact .inr ⟨_, _, _, _, rfl, hk, ht, hreceive, by simp [hlt]⟩
  | late => exact hguard.elim
  | closed =>
      rcases List.mem_or_eq_of_mem_set hmem with hmem | heq
      · exact .inl hmem
      · cases heq
  | _ => exact .inl hmem

theorem Engine.Heeded.step {crypto : Crypto} {s s' : Engine} {e : Event}
    (hr : (engine crypto).Reachable s) (h : s.Heeded) (hguard : decisionsArrive s e)
    (hstep : s.step crypto e = some s') : s'.Heeded := by
  obtain ⟨sec, p, hmoved, hshared, hparties⟩ := step_cases hstep
  intro id decision hreturned t' ht' x' op' todo' hpc' hid hands
  have hsingle := single (.step hr trivial hstep)
  have htasks : s'.tasks = p.tasks := by rw [hparties, Parties.log_tasks]
  rw [hparties, Parties.log_resolvers] at hreturned
  rw [htasks] at ht'
  obtain ⟨i, hi⟩ := List.mem_iff_getElem?.mp ht'
  rcases hmoved.returned hguard hreturned with hold |
    ⟨k, task, t, u, rfl, hresolver, ht, hreceive, hu⟩
  · -- it has been sent before: the forwarder has come to its pause
    obtain ⟨hlt, hpast⟩ := (spent hr).past _ hold id rfl
    rcases hmoved.came hi with ⟨t, ht, hbecame⟩ | ⟨-, harrives⟩
    · have hmem := List.mem_of_getElem? ht
      cases hbecame with
      | stays => exact h id decision hold _ hmem x' op' todo' hpc' hid hands
      | moves hallows hm =>
          by_cases hserves : ∃ x op todo, t.pc = .serving x op todo
          · obtain ⟨x, op, todo, hpc⟩ := hserves
            have hopening : op.opening = false := Bool.eq_false_iff.mpr fun hop =>
              hpast t hmem (Task.at?_eq_some.mpr ⟨x, op, todo, hpc, hop, (hm.received hpc hpc').1 ▸ hid⟩)
            obtain ⟨rfl, hsame | ⟨hrefused | hop, -⟩⟩ := hm.received hpc hpc'
            · have hands' : op.hands = true := by
                rcases hm.at Op.initial_hands (Task.at?_eq_some.mpr ⟨_, _, _, hpc', hands, rfl⟩) with
                  hforwards | hnew
                · obtain ⟨y, op'', todo'', hpc'', hands'', -⟩ := Task.at?_eq_some.mp hforwards
                  cases hpc.symm.trans hpc''
                  exact hands''
                · omega
              rcases h id decision hold t hmem x' op todo hpc hid hands' with ⟨response, rfl⟩ | hreceived
              · exact .inl ⟨response, hm.refused hpc hpc'⟩
              · exact .inr (hsame.trans hreceived)
            · exact .inl hrefused
            · cases hopening.symm.trans hop
          · have hnot : ∀ x op todo, t.pc ≠ .serving x op todo :=
              fun x op todo hpc => hserves ⟨x, op, todo, hpc⟩
            have hnew := (hm.begun (told hr t hmem) hnot hpc').2
            omega
      | polls => exact h id decision hold _ hmem x' op' todo' hpc' hid hands
      | hands hpc =>
          cases hpc'
          cases hands
      | receives hresolver hreceive =>
          obtain ⟨x, upstream, draft, rfl, hpc, rfl⟩ := (senders hr).receiver hresolver ht hreceive
          cases hpc'
          rcases h id decision hold t hmem x' _ _ hpc hid rfl with ⟨response, heq⟩ | hnone
          · cases heq
          · cases hnone
    · cases harrives with
      | connection => cases hpc'
      | innerFirst hk hpc =>
          cases hpc'
          exact absurd (Task.at?_eq_some.mpr ⟨_, _, _, hpc, rfl, hid⟩)
            (hpast _ (List.mem_of_getElem? hk))
      | innerNext hk hpc =>
          cases hpc'
          have hid : s.shared.nextId = id := hid
          omega
  · -- it has just arrived, at the one forwarder of the exchange
    obtain ⟨x, upstream, draft, rfl, hpc, rfl⟩ := (senders hr).receiver hresolver ht hreceive
    have hforwards := Task.at?_eq_some.mpr ⟨x', op', todo', hpc', hands, hid⟩
    have hforwards' : Task.forwards? { t with pc := .serving x (.paused upstream draft (some decision)) [] } =
        some x.id := rfl
    rw [← htasks] at hi hu
    obtain rfl := hsingle hi hu hforwards hforwards'
    cases hi.symm.trans hu
    cases hpc'
    exact .inr rfl

theorem Engine.heeded {crypto : Crypto} {s : Engine}
    (h : (engine crypto).Reach decisionsArrive s) : s.Heeded :=
  h.invariant_along (fun _ _ hr => absurd hr List.not_mem_nil)
    fun hr hs hguard hstep => hs.step hr.reachable hguard hstep

/-! ## What the capture tells of a pause -/

/-- No outcome of a pause is among these errands. -/
def Settled (todo : List Errand) : Prop := ∀ received, .change (.resumed received) ∉ todo

theorem settled_of_plain {todo : List Errand} (h : ∀ errand ∈ todo, errand.plain = true) :
    Settled todo := fun _ hmem => nomatch h _ hmem

theorem Settled.tail {errand : Errand} {todo : List Errand} (h : Settled (errand :: todo)) :
    Settled todo := fun received hmem => h received (List.mem_cons_of_mem _ hmem)

/-- The state of the breakpoint in a capture, by where the forwarder of its exchange stands. -/
inductive Traced (state : BreakpointState) (seen : Seen) : Op → List Errand → Prop
  | opening {op todo} : op.opening = true → seen.decision = none → Settled todo → state = .none →
      Traced state seen op todo
  | paused {upstream draft received todo} : Settled todo → state = .waiting →
      Traced state seen (.paused upstream draft received) todo
  /-- The outcome is about to be written. -/
  | resuming {upstream draft todo} : Settled todo → state = .waiting →
      Traced state seen (.shaping upstream draft) (.change (.resumed seen.decision) :: todo)
  | past {op todo} : op.opening = false → (∀ upstream draft received, op ≠ .paused upstream draft received) →
      Settled todo → state = .after seen.decision ∨ state = .none ∧ seen.decision = none →
      Traced state seen op todo
  | refused {response todo} : Traced state seen (.refused response) todo

def Task.Traced (t : Task) (c : Capture) : Prop :=
  ∀ x op todo, t.pc = .serving x op todo → SippinSoda.Traced c.breakpointState t.seen op todo

/-- Only the outcome of a pause changes the state of the breakpoint. -/
theorem Capture.breakpointState_apply {c : Capture} {now : Nat} {change : Change}
    (h : ∀ received, change ≠ .resumed received) :
    (c.apply now change).breakpointState = c.breakpointState := by
  cases change with
  | resumed received => exact absurd rfl (h received)
  | finish started error =>
      unfold Capture.apply
      dsimp only
      split <;> rfl
  | _ => rfl

theorem BreakpointState.after_ne_none (received : Option BreakpointDecision) :
    BreakpointState.after received ≠ .none := by
  cases received with
  | none => exact BreakpointState.noConfusion
  | some decision =>
      show (if decision.modifies = true then BreakpointState.modified else .continued) ≠ .none
      by_cases h : decision.modifies = true
      · rw [if_pos h]
        exact BreakpointState.noConfusion
      · rw [if_neg h]
        exact BreakpointState.noConfusion

theorem Capture.breakpointState_apply_ne {c : Capture} {now : Nat} {change : Change}
    (h : c.breakpointState ≠ .none) : (c.apply now change).breakpointState ≠ .none := by
  by_cases hresumed : ∃ received, change = .resumed received
  · obtain ⟨received, rfl⟩ := hresumed
    exact BreakpointState.after_ne_none received
  · rw [breakpointState_apply fun received heq => hresumed ⟨received, heq⟩]
    exact h

theorem Section.breakpointState_errand {c : Capture} {now id : Nat} {errand : Errand}
    (h : ∀ received, errand ≠ .change (.resumed received)) :
    ((errand.section id).onCapture now c).breakpointState = c.breakpointState := by
  cases errand with
  | change change =>
      show (Section.onCapture now c (.update id change)).breakpointState = _
      by_cases hid : id = c.id
      · subst hid
        rw [onCapture_update]
        exact Capture.breakpointState_apply fun received heq => h received (by rw [heq])
      · rw [onCapture_update_of_ne hid]
  | announce => rfl
  | removeBody => rfl

theorem Section.breakpointState_mild {c : Capture} {now k id : Nat} {act : Act}
    (h : act.mild = true) :
    ((act.section k id).onCapture now c).breakpointState = c.breakpointState := by
  rcases Act.section_of_mild h k id with heq | ⟨change, hmild, heq⟩
  · rw [heq]
    rfl
  · rw [heq]
    have hnot : ∀ received, Errand.change change ≠ .change (.resumed received) := by
      intro received heq
      cases heq
      cases hmild
    exact breakpointState_errand hnot

/-- An errand done: the outcome of the pause is written, or nothing happens to it. -/
theorem Traced.errand {c : Capture} {seen : Seen} {op : Op} {errand : Errand} {todo : List Errand}
    (h : Traced c.breakpointState seen op (errand :: todo)) (now : Nat) :
    Traced ((errand.section c.id).onCapture now c).breakpointState seen op todo := by
  have same (hsettled : Settled (errand :: todo)) :
      ((errand.section c.id).onCapture now c).breakpointState = c.breakpointState :=
    Section.breakpointState_errand fun received heq => hsettled received (heq ▸ List.mem_cons_self)
  generalize hstate : c.breakpointState = state at h same
  generalize hqueue : errand :: todo = queue at h same
  cases h with
  | opening hop hdecision hsettled hnone =>
      subst hqueue
      exact .opening hop hdecision hsettled.tail ((same hsettled).trans hnone)
  | paused hsettled hwaiting =>
      subst hqueue
      exact .paused hsettled.tail ((same hsettled).trans hwaiting)
  | resuming hsettled hwaiting =>
      cases hqueue
      refine .past rfl (by simp) hsettled (.inl ?_)
      show (Section.onCapture now c (.update c.id (.resumed seen.decision))).breakpointState = _
      rw [Section.onCapture_update]
      rfl
  | past hop hpaused hsettled hafter =>
      subst hqueue
      rw [same hsettled]
      exact .past hop hpaused hsettled.tail hafter
  | refused => exact .refused

theorem Op.not_paused_of_response {op : Op} {response : Response} (h : op.response? = some response)
    (upstream : Upstream) (draft : Draft) (received : Option BreakpointDecision) :
    op ≠ .paused upstream draft received := by
  rintro rfl
  cases h

theorem Op.not_opening_of_response {op : Op} {response : Response}
    (h : op.response? = some response) : op.opening = false := by
  cases op <;> first | rfl | cases h

theorem settled_nil : Settled [] := fun _ hmem => absurd hmem List.not_mem_nil

/-- Before the pause there is no trace of it. -/
theorem Traced.traceless {state : BreakpointState} {seen : Seen} {op : Op} {todo : List Errand}
    (h : Traced state seen op todo) (hop : op.opening = true) :
    seen.decision = .none ∧ Settled todo ∧ state = .none := by
  cases h with
  | opening _ hdecision hsettled hnone => exact ⟨hdecision, hsettled, hnone⟩
  | past hnot => cases hnot.symm.trans hop
  | _ => cases hop

/-- The capture waits with the task. -/
theorem Traced.waiting {state : BreakpointState} {seen : Seen} {upstream : Upstream}
    {draft : Draft} {received : Option BreakpointDecision} {todo : List Errand}
    (h : Traced state seen (.paused upstream draft received) todo) :
    Settled todo ∧ state = .waiting := by
  cases h with
  | opening hop => cases hop
  | paused hsettled hwaiting => exact ⟨hsettled, hwaiting⟩
  | past _ hnot => exact absurd rfl (hnot _ _ _)

/-- After it the capture has the outcome. -/
theorem Traced.outcome {state : BreakpointState} {seen : Seen} {op : Op} {todo : List Errand}
    (h : Traced state seen op todo) {response : Response} (hop : op.response? = some response) :
    Settled todo ∧ (state = .after seen.decision ∨ state = .none ∧ seen.decision = .none) := by
  cases h with
  | opening hopening => cases (Op.not_opening_of_response hop).symm.trans hopening
  | past _ _ hsettled hafter => exact ⟨hsettled, hafter⟩
  | _ => cases hop

theorem Traced.of_response {state : BreakpointState} {seen : Seen} {op : Op} {todo : List Errand}
    {response : Response} (hop : op.response? = some response) (hsettled : Settled todo)
    (h : state = .after seen.decision ∨ state = .none ∧ seen.decision = .none) :
    Traced state seen op todo :=
  .past (Op.not_opening_of_response hop) (Op.not_paused_of_response hop) hsettled h

/-- A move of the forwarder after the upstream's answer. -/
theorem Traced.answered {c : Capture} {http2 : Bool} {s : State} {x : Handling} {seen : Seen}
    {op : Op} {a : Answer} {m : Move} (h : Traced c.breakpointState seen op [])
    (hm : Answered http2 s x seen op a m) (hid : x.id = c.id) (now k : Nat) :
    Traced ((m.act.section k x.id).onCapture now c).breakpointState m.seen m.op m.todo := by
  cases hm with
  | looked authority upstream =>
      obtain ⟨hdecision, -, hnone⟩ := h.traceless rfl
      refine .opening rfl hdecision ?_ hnone
      split
      · exact settled_nil
      · intro received hmem
        cases List.mem_singleton.mp hmem
  | opened upstream draft =>
      refine .paused settled_nil ?_
      rw [hid]
      show (Section.onCapture now c (.openBreakpoint c.id k draft.status)).breakpointState = _
      rw [Section.onCapture_openBreakpoint]
      rfl
  | unopened upstream draft =>
      obtain ⟨hdecision, -, hnone⟩ := h.traceless rfl
      exact .past rfl (by simp) settled_nil (.inr ⟨hnone, hdecision⟩)
  | woken upstream draft received =>
      exact .resuming (settled_of_plain (by simp [Errand.plain])) h.waiting.2
  | shaped upstream draft op c' hop hmild =>
      have hafter : c.breakpointState = .after seen.decision ∨
          c.breakpointState = .none ∧ seen.decision = none := by
        generalize c.breakpointState = state at h
        generalize hnil : ([] : List Errand) = todo at h
        cases h with
        | opening hop => cases hop
        | resuming => cases hnil
        | past _ _ _ hafter => exact hafter
      show Traced (Section.onCapture now c (Act.section k x.id (.change c'))).breakpointState _ _ _
      have hact : (Act.change c').mild = true := hmild
      rw [Section.breakpointState_mild hact]
      rcases hop with rfl | rfl
      · exact .of_response rfl settled_nil hafter
      · exact .of_response rfl settled_nil hafter
  | stored response =>
      exact .of_response rfl (settled_of_plain (plain_finish _ _)) (h.outcome rfl).2
  | recorded upstream response => exact .of_response rfl settled_nil (h.outcome rfl).2
  | checked upstream response =>
      refine .of_response rfl ?_ (h.outcome rfl).2
      split
      · exact settled_nil
      · intro received hmem
        cases List.mem_singleton.mp hmem
  | onward op op' a response todo hop hop' _ _ hplain =>
      exact .of_response hop' (settled_of_plain hplain) (h.outcome hop).2

/-- A step of the forwarder. -/
theorem Task.Moved.traced {s : State} {now k : Nat} {t t' : Task} {a : Answer} {sec : Section}
    {c : Capture} (h : t.Moved s now k a sec t') (hid : t.forwards? = some c.id)
    (hid' : t'.forwards? = some c.id) (htraced : t.Traced c) :
    t'.Traced (sec.onCapture now c) := by
  obtain ⟨x, op, todo, hpc, hands, hx⟩ := Task.at?_eq_some.mp hid
  obtain ⟨x', op', todo', hpc', hands', -⟩ := Task.at?_eq_some.mp hid'
  have hold := htraced x op todo hpc
  intro y opy todoy hpcy
  cases h.goes hpc with
  | errand =>
      cases hpcy
      rw [hx]
      exact hold.errand now
  | drop => cases hpcy
  | deadline =>
      cases hpcy
      exact .refused
  | asked hstep hasked =>
      rename_i m
      cases hpcy
      cases hpc'
      obtain ⟨hdecision, -, hnone⟩ := hold.traceless (Op.opening_of_early hasked.early hands)
      have hnone' : ((m.act.section k x.id).onCapture now c).breakpointState = .none :=
        (Section.breakpointState_mild (Act.mild_of_quiet hasked.act)).trans hnone
      have hdecision' : m.seen.decision = none := hasked.decision.trans hdecision
      have hsettled := settled_of_plain hasked.todo
      show SippinSoda.Traced _ m.seen m.op m.todo
      rcases hasked.next with hearly | ⟨response, heq⟩ | ⟨authority, upstream, heq, -⟩
      · exact .opening (Op.opening_of_early hearly hands') hdecision' hsettled hnone'
      · rw [heq]
        exact .refused
      · rw [heq]
        exact .opening rfl hdecision' hsettled hnone'
  | answered hanswered =>
      cases hpcy
      exact hold.answered hanswered hx now k

theorem kept_traced : Kept Task.Traced where
  begins hpc hid _ hop hdecision x op todo hpc' := by
    cases hpc.symm.trans hpc'
    exact .opening hop hdecision settled_nil rfl
  moves h _ _ hid hid' htraced := h.traced hid hid' htraced
  others hown htraced x op todo hpc := by
    rw [Capture.breakpointState_apply ?_]
    · exact htraced x op todo hpc
    · rintro received rfl
      cases hown
  polls htraced := htraced
  receives hreceive htraced x op todo hpc' := by
    rw [Task.receive] at hreceive
    split at hreceive <;> cases hreceive
    next hpc =>
      cases hpc'
      obtain ⟨hsettled, hwaiting⟩ := (htraced _ _ _ hpc).waiting
      exact .paused hsettled hwaiting
  inner hpc htraced k request x op todo hpc' := by
    cases hpc'
    obtain ⟨-, -, hnone⟩ := (htraced _ _ _ hpc).traceless rfl
    exact .opening rfl rfl settled_nil hnone

/-! ## The result -/

/-- The run has opened a breakpoint for the exchange. -/
def HasPaused (crypto : Crypto) (es : List Event) (id : Nat) : Prop :=
  (engine crypto).Once
    (fun _ s e => ∃ task status, s.section crypto e = .openBreakpoint id task status) es

/-- The capture of an exchange that was paused does not forget it. -/
theorem Engine.paused_run {crypto : Crypto} {id : Nat} :
    ∀ {es : List Event} {s : Engine}, (engine crypto).run es = some s → HasPaused crypto es id →
      id < s.shared.nextId ∧ ∀ c ∈ s.shared.traffic, c.id = id → c.breakpointState ≠ .none := by
  refine Machine.run_induction (P := fun (es : List Event) (s : Engine) => HasPaused crypto es id →
    id < s.shared.nextId ∧ ∀ c ∈ s.shared.traffic, c.id = id → c.breakpointState ≠ .none) ?_ ?_
  · rintro ⟨before, e, after, s, hes, -⟩
    simp at hes
  · intro es s e s' hrun ih hstep hpaused
    obtain ⟨p, hmoved, hshared, -⟩ := step_section hstep
    generalize hsec : s.section crypto e = sec at hmoved hshared
    have hc := consistent (Machine.reachable_of_run es hrun)
    have hlt : id < s.shared.nextId ∧ (∀ c ∈ s.shared.traffic, c.id = id →
        c.breakpointState ≠ .none ∨ ∃ task status, sec = .openBreakpoint id task status) := by
      rcases hpaused.concat_cases hrun with ⟨task, status, hopen⟩ | hbefore
      · rw [hsec] at hopen
        subst hopen
        obtain ⟨t, -, x, _, _, -, -, -, hx, -, -, -, hmodify⟩ := hmoved.opens
        obtain ⟨c, hcmem, hcid⟩ := State.retained_of_canModify hmodify
        exact ⟨hcid ▸ hc.fresh _ (hc.captured c hcmem), fun _ _ _ => .inr ⟨task, status, rfl⟩⟩
      · obtain ⟨hlt, hwas⟩ := ih hbefore
        exact ⟨hlt, fun c hcmem hcid => .inl (hwas c hcmem hcid)⟩
    obtain ⟨hlt, hwas⟩ := hlt
    refine ⟨?_, fun c' hc' hid => ?_⟩
    · rw [hshared, State.apply_nextId]
      exact Nat.lt_add_right _ hlt
    · rw [hshared] at hc'
      rcases hc.ordered.mem_apply hc' with ⟨hmem, -, hopen⟩ | ⟨c, hmem, change, rfl, rfl⟩ |
        ⟨c, hmem, task, status, rfl, rfl⟩ | ⟨_, _, _, _, rfl, rfl⟩
      · rcases hwas c' hmem hid with hstate | ⟨task, status, hsec'⟩
        · exact hstate
        · exact absurd (hid ▸ hsec') (hopen task status)
      · rcases hwas c hmem ((c.apply_id _ change) ▸ hid) with hstate | ⟨task, status, hsec'⟩
        · exact Capture.breakpointState_apply_ne hstate
        · cases hsec'
      · exact BreakpointState.noConfusion
      · exact absurd hid (by show s.shared.nextId ≠ id; omega)

/-- What calls, responses and captures have to do with each other after the run. -/
structure Engine.DecisionsKept (crypto : Crypto) (es : List Event) (s : Engine) : Prop where
  /-- One call for an exchange succeeds at most. -/
  once : ∀ (j k id : Nat) decision decision',
    s.resolvers[j]? = some (Resolver.returned id (.ok decision)) →
    s.resolvers[k]? = some (Resolver.returned id (.ok decision')) → j = k
  /-- The response that is returned is made with the decision of that call, or with none; and so
  says the capture of an exchange that was paused. -/
  reflected : ∀ t ∈ s.tasks, ∀ x response todo, t.pc = .serving x (.returned response) todo →
    ∃ upstream decision, t.seen.upstream = some upstream ∧
      response = shaped t.origin.http2 upstream t.seen.rule decision ∧
      (∀ d, decision = some d ↔ .returned x.id (.ok d) ∈ s.resolvers) ∧
      (HasPaused crypto es x.id → ∀ c ∈ s.shared.traffic, c.id = x.id →
        c.breakpointState = .after decision)
  /-- A call with an invalid argument leaves everything in place. -/
  invalid : ∀ id status body contentType message s',
    BreakpointDecision.compile status body contentType = .error message →
    s.step crypto (.resolve id status body contentType) = some s' →
    s' = { s with resolvers := s.resolvers ++ [.returned id (.error message)] }

/-- **Decisions are kept**, in every run in which none is sent between the last look at its
receiver and the drop of that receiver. -/
theorem decisions_are_kept {crypto : Crypto} {es : List Event} {s : Engine}
    (hmeets : (engine crypto).Meets decisionsArrive (engine crypto).start es)
    (hrun : (engine crypto).run es = some s) : s.DecisionsKept crypto es := by
  have hreach := Machine.reach_of_run es hmeets hrun
  have hr := hreach.reachable
  refine ⟨fun j k id decision decision' hj hk => ?_, fun t ht x response todo hpc => ?_,
    fun id status body contentType message s' hcompile hstep => ?_⟩
  · exact (Engine.spent hr).once hj hk rfl rfl
  · obtain ⟨-, -, hdrafted⟩ := (Engine.told hr t ht).of_serving hpc
    obtain ⟨upstream, hresponse, hupstream⟩ : ∃ upstream,
        response = shaped t.origin.http2 upstream t.seen.rule t.seen.decision ∧
        t.seen.upstream = some upstream := by
      cases hdrafted with
      | early hearly => cases hearly
      | returning hresponse hupstream => exact ⟨_, Option.some.inj hresponse, hupstream⟩
    refine ⟨upstream, t.seen.decision, hupstream, hresponse, fun d => ⟨fun hd => ?_, fun hmem => ?_⟩,
      fun hpaused c hc hid => ?_⟩
    · exact Engine.sent hr t ht x _ todo d hpc hd
    · rcases Engine.heeded hreach x.id d hmem t ht x _ todo hpc rfl rfl with ⟨refused, heq⟩ | hd
      · cases heq
      · exact hd
    · have hforwards : t.forwards? = some c.id :=
        Task.at?_eq_some.mpr ⟨x, _, todo, hpc, rfl, hid.symm⟩
      have htraced := Engine.forwarded kept_traced hr t ht c hc hforwards x _ todo hpc
      exact (htraced.outcome rfl).2.resolve_right fun hnone =>
        (Engine.paused_run hrun hpaused).2 c hc hid hnone.1
  · have hmove : s.move crypto (.resolve id status body contentType) = some (.nothing,
        { s.toParties with resolvers := s.resolvers ++ [.returned id (.error message)] }) := by
      unfold Engine.move
      show s.callStep _ = _
      unfold Engine.callStep
      simp only [hcompile]
    have hafter := Option.some.inj (hstep.symm.trans (congrArg (Option.map _) hmove))
    exact hafter

/-- A paused response whose status the user replaces, up to its return. -/
def resolvedAndReturned : List Event :=
  untilPaused ++ [.resolve 1 (some 201) none none, .send 0] ++
    answers 0 [.wake, .go, .go, .go, .go, .go]

theorem sent_decision_is_reflected :
    ∃ s t x response, (engine .unused).run resolvedAndReturned = some s ∧ t ∈ s.tasks ∧
      t.pc = .serving x (.returned response) [] ∧ response.status = 201 ∧
      s.DecisionsKept .unused resolvedAndReturned := by
  have hrun : ∃ s t x response, (engine .unused).run resolvedAndReturned = some s ∧ t ∈ s.tasks ∧
      t.pc = .serving x (.returned response) [] ∧ response.status = 201 :=
    ⟨_, _, _, _, rfl, List.mem_cons_self, rfl, rfl⟩
  obtain ⟨s, t, x, response, hrun, ht, hpc, hstatus⟩ := hrun
  exact ⟨s, t, x, response, hrun, ht, hpc, hstatus, decisions_are_kept (by decide) hrun⟩

/-- The same decision is sent when the task has looked at its receiver for the last time. -/
def resolvedTooLate : List Event :=
  untilPaused ++ [.resolve 1 (some 201) none none, .sendLate 0] ++
    answers 0 [.wake, .go, .go, .go, .go, .go]

/-- The call succeeds, and the response and its capture know nothing of its decision. -/
theorem late_decision_is_lost :
    (∃ s t x response decision, (engine .unused).run resolvedTooLate = some s ∧
      s.resolvers = [.returned 1 (.ok decision)] ∧ decision.status = some 201 ∧ t ∈ s.tasks ∧
      t.pc = .serving x (.returned response) [] ∧ x.id = 1 ∧ response.status = 200 ∧
      t.seen.upstream = some ⟨200, [], false, []⟩ ∧
      s.shared.traffic.map (·.breakpointState) = [.timedOut]) ∧
    ¬ ∀ es s, (engine .unused).run es = some s → s.DecisionsKept .unused es := by
  have hrun : ∃ s t x response decision, (engine .unused).run resolvedTooLate = some s ∧
      s.resolvers = [.returned 1 (.ok decision)] ∧ decision.status = some 201 ∧ t ∈ s.tasks ∧
      t.pc = .serving x (.returned response) [] ∧ x.id = 1 ∧ response.status = 200 ∧
      t.seen.upstream = some ⟨200, [], false, []⟩ ∧
      s.shared.traffic.map (·.breakpointState) = [.timedOut] :=
    ⟨_, _, _, _, _, rfl, rfl, rfl, List.mem_cons_self, rfl, rfl, rfl, rfl, rfl⟩
  refine ⟨hrun, fun hall => ?_⟩
  obtain ⟨s, t, x, response, decision, hrun, hresolvers, hdecided, ht, hpc, hid, hstatus, hupstream,
    -⟩ := hrun
  obtain ⟨upstream, made, hupstream', hresponse, hmade, -⟩ :=
    (hall _ s hrun).reflected t ht x response [] hpc
  have hsome : made = some decision := by
    rw [hmade, hresolvers, hid]
    exact List.mem_cons_self
  have hchosen : chosenStatus upstream t.seen.rule (some decision) = 201 := by
    unfold chosenStatus
    rw [Option.bind_some, hdecided]
  rw [hresponse, hsome, shaped_status, hchosen] at hstatus
  exact absurd hstatus (by decide)

end SippinSoda
