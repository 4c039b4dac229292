import SippinSoda.Engine.ShownRequests

/-!
# Two runs that differ in an upstream response

Two runs are the same but for the response that the upstream of one task returns. Until the task has
shaped its own response the states of the two are the same, but for that task: its two responses have
the same status, and nothing else is looked at. After that the capture of its exchange changes in
neither.

* **swap** — a state with another upstream response for one task;
* **move_swap** — what others do there is the same;
* **Mute** — a task that shows nothing any more;
* **both_run** — where the same events lead in the two runs;
* **exists_run_swap** — what can happen in the one can happen in the other.
-/

namespace SippinSoda

/-! ## Lists with one element exchanged -/

section Lists

variable {α : Type} {f : α → α} {l : List α} {k i : Nat} {a : α}

theorem set_modify (h : i < l.length) :
    (l.modify k f).set i (if k = i then f a else a) = (l.set i a).modify k f := by
  apply List.ext_getElem?
  intro j
  rw [List.getElem?_set, List.getElem?_modify, List.getElem?_modify, List.getElem?_set,
    List.length_modify]
  by_cases hij : i = j
  · subst hij
    rw [if_pos rfl, if_pos h, if_pos rfl, if_pos h]
    rfl
  · rw [if_neg hij, if_neg hij]

theorem modify_set_self (h : k < l.length) : (l.set k a).modify k f = l.set k (f a) := by
  apply List.ext_getElem?
  intro j
  rw [List.getElem?_modify, List.getElem?_set, List.getElem?_set]
  by_cases hkj : k = j
  · subst hkj
    rw [if_pos rfl, if_pos h, if_pos rfl, if_pos h]
    exact congrArg some (if_pos rfl)
  · rw [if_neg hkj, if_neg hkj]
    cases l[j]? with
    | none => rfl
    | some b => exact congrArg some (if_neg hkj)

theorem modify_concat (h : k < l.length) : (l ++ [a]).modify k f = l.modify k f ++ [a] := by
  apply List.ext_getElem?
  intro j
  rw [List.getElem?_modify]
  by_cases hj : j < l.length
  · rw [List.getElem?_append_left hj, List.getElem?_append_left (by simpa using hj),
      List.getElem?_modify]
  · have hne : k ≠ j := by omega
    rw [List.getElem?_append_right (by omega), List.getElem?_append_right (by simpa using by omega),
      List.length_modify]
    cases ([a])[j - l.length]? with
    | none => rfl
    | some b => exact congrArg some (if_neg hne)

/-- What does not see the exchange counts the same. -/
theorem any_modify {p : α → Bool} (h : ∀ a, p (f a) = p a) : (l.modify k f).any p = l.any p := by
  induction l generalizing k with
  | nil => rw [List.modify_nil]
  | cons a l ih =>
      cases k with
      | zero =>
          rw [List.modify_zero_cons, List.any_cons, List.any_cons, h]
      | succ k =>
          rw [List.modify_succ_cons, List.any_cons, List.any_cons, ih]

theorem all_modify {p : α → Bool} (h : ∀ a, p (f a) = p a) : (l.modify k f).all p = l.all p := by
  induction l generalizing k with
  | nil => rw [List.modify_nil]
  | cons a l ih =>
      cases k with
      | zero =>
          rw [List.modify_zero_cons, List.all_cons, List.all_cons, h]
      | succ k =>
          rw [List.modify_succ_cons, List.all_cons, List.all_cons, ih]

theorem countP_modify {p : α → Bool} (h : ∀ a, p (f a) = p a) :
    (l.modify k f).countP p = l.countP p := by
  induction l generalizing k with
  | nil => rw [List.modify_nil]
  | cons a l ih =>
      cases k with
      | zero =>
          rw [List.modify_zero_cons, List.countP_cons, List.countP_cons, h]
      | succ k =>
          rw [List.modify_succ_cons, List.countP_cons, List.countP_cons, ih]

end Lists

/-! ## Another response -/

/-- The operation with another response of the upstream, until its own is shaped. -/
def Op.swap (upstream : Upstream) : Op → Op
  | .answered authority _ => .answered authority upstream
  | .breaking _ draft => .breaking upstream { draft with headers := upstream.headers }
  | .paused _ draft received => .paused upstream { draft with headers := upstream.headers } received
  | .shaping _ draft => .shaping upstream { draft with headers := upstream.headers }
  | op => op

def Pc.swap (upstream : Upstream) : Pc → Pc
  | .serving x op todo => .serving x (op.swap upstream) todo
  | pc => pc

def Task.swap (upstream : Upstream) (t : Task) : Task :=
  { t with pc := t.pc.swap upstream, seen := { t.seen with upstream := some upstream } }

/-- The parties with another response for task `k`. -/
def Parties.swap (p : Parties) (k : Nat) (upstream : Upstream) : Parties :=
  { p with tasks := p.tasks.modify k (Task.swap upstream) }

def Engine.swap (s : Engine) (k : Nat) (upstream : Upstream) : Engine :=
  { s with toParties := s.toParties.swap k upstream }

/-- The operation has a response of the upstream and has not shaped its own. -/
inductive Op.Shapes (upstream : Upstream) : Op → Prop
  | answered {authority} : Shapes upstream (.answered authority upstream)
  | breaking {draft} : draft.headers = upstream.headers → Shapes upstream (.breaking upstream draft)
  | paused {draft received} : draft.headers = upstream.headers →
      Shapes upstream (.paused upstream draft received)
  | shaping {draft} : draft.headers = upstream.headers → Shapes upstream (.shaping upstream draft)

/-- The task has one, for its exchange. -/
def Task.Shapes (upstream : Upstream) (id : Nat) (t : Task) : Prop :=
  ∃ x op todo, t.pc = .serving x op todo ∧ x.id = id ∧ op.Shapes upstream

section Others

variable (upstream : Upstream) (t : Task)

@[simp] theorem Op.holdsExchange_swap (op : Op) :
    (op.swap upstream).holdsExchange = op.holdsExchange := by
  cases op <;> rfl

@[simp] theorem Op.holdsSender_swap (op : Op) : (op.swap upstream).holdsSender = op.holdsSender := by
  cases op <;> rfl

@[simp] theorem Task.over_swap : (t.swap upstream).over = t.over := by
  obtain ⟨listening, origin, pc, seen, body⟩ := t
  cases pc <;> rfl

@[simp] theorem Task.inTunnel_swap (k : Nat) : (t.swap upstream).inTunnel k = t.inTunnel k := rfl

@[simp] theorem Task.origin_swap : (t.swap upstream).origin = t.origin := rfl

@[simp] theorem Task.holds_swap (id : Nat) : (t.swap upstream).holds id = t.holds id := by
  obtain ⟨listening, origin, pc, seen, body⟩ := t
  cases pc with
  | serving x op todo =>
      show ((x.id = id && ((op.swap upstream).holdsExchange || !todo.isEmpty)) || _) = _
      rw [Op.holdsExchange_swap]
      rfl
  | _ => rfl

@[simp] theorem Task.holdsSender_swap (k : Nat) :
    (t.swap upstream).holdsSender k = t.holdsSender k := by
  obtain ⟨listening, origin, pc, seen, body⟩ := t
  cases pc with
  | serving x op todo =>
      show (_ && (op.swap upstream).holdsSender) = _
      rw [Op.holdsSender_swap]
      rfl
  | _ => rfl

@[simp] theorem Task.unsent_swap : (t.swap upstream).unsent = t.unsent := by
  obtain ⟨listening, origin, pc, seen, body⟩ := t
  cases pc with
  | serving x op todo => cases op <;> rfl
  | _ => rfl

/-- A decision arrives in both. -/
theorem Task.receive_swap (decision : BreakpointDecision) :
    (t.swap upstream).receive decision = (t.receive decision).map (Task.swap upstream) := by
  obtain ⟨listening, origin, pc, seen, body⟩ := t
  cases pc with
  | serving x op todo =>
      cases op with
      | paused u draft received =>
          cases received with
          | none => cases todo <;> rfl
          | some received => rfl
      | _ => rfl
  | _ => rfl

end Others

/-! ## What others do -/

section Moves

variable {upstream : Upstream} {k : Nat} {s : Engine}

/-- A step with another response for task `k`. -/
def Step.swap (k : Nat) (upstream : Upstream) (step : Step) : Step :=
  step.map fun move => (move.1, move.2.swap k upstream)

theorem Parties.connections_swap (p : Parties) : (p.swap k upstream).connections = p.connections := by
  unfold Parties.connections Parties.swap
  rw [← List.countP_eq_length_filter, ← List.countP_eq_length_filter]
  refine countP_modify fun t => ?_
  rw [Task.origin_swap, Task.over_swap]

theorem Parties.holds_swap (p : Parties) (id : Nat) : (p.swap k upstream).holds id = p.holds id := by
  unfold Parties.holds Parties.swap
  rw [any_modify fun t => Task.holds_swap upstream t id]

theorem Engine.lifecycle_swap (hk : k < s.tasks.length) (e : Event) :
    (s.swap k upstream).lifecycle e = Step.swap k upstream (s.lifecycle e) := by
  have hconnections : (s.swap k upstream).connections = s.connections :=
    Parties.connections_swap s.toParties
  have hcall : (s.swap k upstream).call = s.call := rfl
  have hlistener : (s.swap k upstream).listener = s.listener := rfl
  have hrunning : (s.swap k upstream).running = s.running := rfl
  cases e with
  | start config =>
      unfold Engine.lifecycle
      dsimp only
      rw [hcall, hrunning]
      split_ifs
      · rfl
      · rfl
      · cases config.compile <;> rfl
  | bind result =>
      unfold Engine.lifecycle
      dsimp only
      rw [hcall]
      cases s.call with
      | binding config settings => cases result <;> rfl
      | _ => rfl
  | starting =>
      unfold Engine.lifecycle
      dsimp only
      rw [hcall]
      cases s.call <;> rfl
  | stop =>
      unfold Engine.lifecycle
      dsimp only
      rw [hcall, hrunning]
      split_ifs <;> rfl
  | shutdown =>
      unfold Engine.lifecycle
      dsimp only
      rw [hcall, hlistener]
      cases s.call <;> cases s.listener <;> rfl
  | joined =>
      unfold Engine.lifecycle
      dsimp only
      rw [hcall, hlistener]
      split_ifs <;> rfl
  | accept =>
      unfold Engine.lifecycle
      dsimp only
      rw [hlistener]
      cases s.listener with
      | accepting listening =>
          dsimp only
          rw [hconnections]
          split_ifs
          · rfl
          · simp only [Step.swap, Option.map_some, Parties.swap, modify_concat hk]
            rfl
      | _ => rfl
  | acceptError =>
      unfold Engine.lifecycle
      dsimp only
      rw [hlistener]
      cases s.listener <;> rfl
  | drained =>
      unfold Engine.lifecycle
      dsimp only
      rw [hlistener, hconnections]
      split_ifs <;> rfl
  | _ => rfl

/-- Task `i` with another response for task `k`. -/
def Task.swapAt (k i : Nat) (upstream : Upstream) (t : Task) : Task :=
  if k = i then t.swap upstream else t

theorem Task.swapAt_of_ne {i : Nat} (h : k ≠ i) (t : Task) : t.swapAt k i upstream = t := if_neg h

theorem Task.receive_swapAt (i : Nat) (t : Task) (decision : BreakpointDecision) :
    (t.swapAt k i upstream).receive decision = (t.receive decision).map (Task.swapAt k i upstream) := by
  by_cases hik : k = i
  · unfold Task.swapAt
    simp only [if_pos hik]
    exact Task.receive_swap upstream t decision
  · rw [Task.swapAt_of_ne hik]
    cases t.receive decision with
    | none => rfl
    | some t' => exact congrArg some (Task.swapAt_of_ne hik t').symm

theorem Engine.tasks_swap (i : Nat) :
    (s.swap k upstream).tasks[i]? = (s.tasks[i]?).map (Task.swapAt k i upstream) :=
  List.getElem?_modify ..

theorem Engine.allows_swap (i : Nat) (t : Task) (a : Answer) :
    (s.swap k upstream).allows i t a = s.allows i t a := by
  have hsender (task : Nat) : (s.swap k upstream).tasks.any (·.holdsSender task) =
      s.tasks.any (·.holdsSender task) := any_modify fun t => Task.holdsSender_swap upstream t task
  have hover : ((s.swap k upstream).tasks.all fun u => !u.inTunnel i || u.over) =
      s.tasks.all fun u => !u.inTunnel i || u.over :=
    all_modify fun t => by rw [Task.inTunnel_swap, Task.over_swap]
  cases a with
  | acquired =>
      unfold Parties.allows
      dsimp only
      cases t.origin with
      | client => rfl
      | tunnel task http2 => exact congrArg (!·) (hsender task)
  | drop =>
      unfold Parties.allows
      dsimp only
      rw [hover]
  | served result =>
      unfold Parties.allows
      dsimp only
      rw [hover]
  | _ => rfl

/-- What an event makes of a task there. -/
theorem Engine.set_swap (k : Nat) (upstream : Upstream) {i : Nat} {t : Task} (t' : Task)
    (hi : s.tasks[i]? = some t) :
    (s.swap k upstream).tasks.set i (t'.swapAt k i upstream) =
      (s.tasks.set i t').modify k (Task.swap upstream) :=
  set_modify (List.getElem?_eq_some_iff.mp hi).1

/-- The same with a new task. -/
theorem Engine.concat_swap (upstream : Upstream) {i : Nat} {t : Task} (t' new : Task)
    (hk : k < s.tasks.length) (hi : s.tasks[i]? = some t) :
    (s.swap k upstream).tasks.set i (t'.swapAt k i upstream) ++ [new] =
      (s.tasks.set i t' ++ [new]).modify k (Task.swap upstream) := by
  rw [Engine.set_swap k upstream t' hi, modify_concat (by rw [List.length_set]; exact hk)]

/-- A request is not handed to a task that has a response. -/
theorem Engine.innerStep_swap {id i : Nat} {request : Request} {current : Upstream} {t : Task}
    (ht : s.tasks[k]? = some t) (hshapes : t.Shapes current id) :
    (s.swap k upstream).innerStep i request = Step.swap k upstream (s.innerStep i request) := by
  have hany : ((s.swap k upstream).tasks.any fun u => u.inTunnel i && !u.over) =
      s.tasks.any fun u => u.inTunnel i && !u.over :=
    any_modify fun t => by rw [Task.inTunnel_swap, Task.over_swap]
  have hk := (List.getElem?_eq_some_iff.mp ht).1
  unfold Engine.innerStep
  rw [Engine.tasks_swap]
  cases hi : s.tasks[i]? with
  | none => rfl
  | some u =>
      show Option.bind (some _) _ = Step.swap k upstream (Option.bind (some u) _)
      rw [Option.bind_some, Option.bind_some]
      by_cases hik : k = i
      · subst hik
        cases ht.symm.trans hi
        obtain ⟨x, op, todo, hpc, -, hop⟩ := hshapes
        have hpc' : (t.swapAt k k upstream).pc = .serving x (op.swap upstream) todo := by
          unfold Task.swapAt
          rw [if_pos rfl]
          show t.pc.swap upstream = _
          rw [hpc]
          rfl
        rw [hpc', hpc]
        cases hop <;> rfl
      · rw [Task.swapAt_of_ne hik, hany]
        have hconcat {t' new : Task} : (s.swap k upstream).tasks.set i t' ++ [new] =
            (s.tasks.set i t' ++ [new]).modify k (Task.swap upstream) := by
          have h := Engine.concat_swap upstream t' new hk hi
          rw [Task.swapAt_of_ne hik] at h
          exact h
        split
        · split_ifs
          · rfl
          · dsimp only
            rw [hconcat]
            rfl
          · dsimp only
            rw [hconcat]
            rfl
        · rfl

theorem Engine.taskStep_swap {crypto : Crypto} {id : Nat} {current : Upstream} {t : Task} {e : Event}
    (ht : s.tasks[k]? = some t) (hshapes : t.Shapes current id) (he : ∀ a, e ≠ .task k a) :
    (s.swap k upstream).taskStep crypto e = Step.swap k upstream (s.taskStep crypto e) := by
  cases e with
  | task i a =>
      have hik : k ≠ i := fun h => he a (by rw [h])
      unfold Engine.taskStep
      dsimp only
      rw [Engine.tasks_swap]
      cases hi : s.tasks[i]? with
      | none => rfl
      | some u =>
          show Option.bind (some _) _ = Step.swap k upstream (Option.bind (some u) _)
          rw [Option.bind_some, Option.bind_some, Task.swapAt_of_ne hik, Engine.allows_swap]
          split_ifs
          · rfl
          · show Option.bind (u.step crypto s.shared s.clock i a) _ =
              Step.swap k upstream (Option.bind (u.step crypto s.shared s.clock i a) _)
            cases u.step crypto s.shared s.clock i a with
            | none => rfl
            | some move =>
                obtain ⟨sec, u'⟩ := move
                have hset := Engine.set_swap k upstream u' hi
                rw [Task.swapAt_of_ne hik] at hset
                show some (sec, { (s.swap k upstream).toParties with
                  tasks := (s.swap k upstream).tasks.set i u' }) = _
                rw [hset]
                rfl
  | body i a =>
      unfold Engine.taskStep
      dsimp only
      rw [Engine.tasks_swap]
      cases hi : s.tasks[i]? with
      | none => rfl
      | some u =>
          have hunsent : (u.swapAt k i upstream).unsent = u.unsent := by
            unfold Task.swapAt
            split_ifs
            · exact Task.unsent_swap upstream u
            · rfl
          have hbody : (u.swapAt k i upstream).body = u.body := by
            unfold Task.swapAt
            split_ifs <;> rfl
          have hwith (body : Option BodyParty) : { u.swapAt k i upstream with body } =
              ({ u with body } : Task).swapAt k i upstream := by
            unfold Task.swapAt
            split_ifs <;> rfl
          show Option.bind (some _) _ = Step.swap k upstream (Option.bind (some u) _)
          rw [Option.bind_some, Option.bind_some, hunsent, hbody]
          split_ifs
          · rfl
          · cases u.body with
            | none => rfl
            | some party =>
                show Option.bind (party.step a) _ = Step.swap k upstream (Option.bind (party.step a) _)
                cases party.step a with
                | none => rfl
                | some move =>
                    rw [Option.bind_some, Option.bind_some, hwith, Engine.set_swap k upstream _ hi]
                    rfl
  | inner i request => exact Engine.innerStep_swap ht hshapes
  | store i error =>
      show Option.bind (s.stores[i]?) _ = Step.swap k upstream (Option.bind (s.stores[i]?) _)
      cases s.stores[i]? with
      | none => rfl
      | some store =>
          show Option.bind (store.step s.shared error) _ =
            Step.swap k upstream (Option.bind (store.step s.shared error) _)
          cases store.step s.shared error <;> rfl
  | dropExchange i =>
      show Option.bind (s.exchanges[i]?) _ = Step.swap k upstream (Option.bind (s.exchanges[i]?) _)
      cases s.exchanges[i]? with
      | none => rfl
      | some x =>
          have hholds : (s.swap k upstream).holds x.id = s.holds x.id :=
            Parties.holds_swap s.toParties x.id
          rw [Option.bind_some, Option.bind_some, hholds]
          split_ifs <;> rfl
  | exchange i =>
      show Option.bind (s.exchanges[i]?) _ = Step.swap k upstream (Option.bind (s.exchanges[i]?) _)
      cases s.exchanges[i]? with
      | none => rfl
      | some x =>
          rw [Option.bind_some, Option.bind_some]
          cases x.todo <;> rfl
  | _ => rfl

theorem Engine.callStep_swap (e : Event) :
    (s.swap k upstream).callStep e = Step.swap k upstream (s.callStep e) := by
  cases e with
  | resolve id status body contentType =>
      unfold Engine.callStep
      dsimp only
      have hshared : (s.swap k upstream).shared = s.shared := rfl
      rw [hshared]
      cases BreakpointDecision.compile status body contentType with
      | error message => rfl
      | ok decision =>
          dsimp only
          cases s.shared.breakpoints.find? (·.1 = id) <;> rfl
  | send i =>
      show Option.bind (s.resolvers[i]?) _ = Step.swap k upstream (Option.bind (s.resolvers[i]?) _)
      cases s.resolvers[i]? with
      | none => rfl
      | some resolver =>
          rw [Option.bind_some, Option.bind_some]
          cases resolver with
          | returned => rfl
          | sending id task decision =>
              dsimp only
              rw [Engine.tasks_swap]
              cases hi : s.tasks[task]? with
              | none => rfl
              | some u =>
                  show Option.bind (some _) _ = Step.swap k upstream (Option.bind (some u) _)
                  rw [Option.bind_some, Option.bind_some, Task.receive_swapAt]
                  cases u.receive decision with
                  | none => rfl
                  | some u' =>
                      rw [Option.map_some]
                      dsimp only
                      rw [Engine.set_swap k upstream u' hi]
                      rfl
  | sendLate i =>
      show Option.bind (s.resolvers[i]?) _ = Step.swap k upstream (Option.bind (s.resolvers[i]?) _)
      cases s.resolvers[i]? with
      | none => rfl
      | some resolver =>
          rw [Option.bind_some, Option.bind_some]
          cases resolver with
          | returned => rfl
          | sending id task decision =>
              dsimp only
              rw [Engine.tasks_swap]
              cases hi : s.tasks[task]? with
              | none => rfl
              | some u =>
                  show Option.bind (some _) _ = Step.swap k upstream (Option.bind (some u) _)
                  rw [Option.bind_some, Option.bind_some, Task.receive_swapAt]
                  cases u.receive decision <;> rfl
  | replay id token =>
      unfold Engine.callStep
      dsimp only
      have hshared : (s.swap k upstream).shared = s.shared := rfl
      rw [hshared]
      cases s.shared.authorizeReplay id <;> rfl
  | replaying i result =>
      show Option.bind (s.replays[i]?) _ = Step.swap k upstream (Option.bind (s.replays[i]?) _)
      cases s.replays[i]? with
      | none => rfl
      | some call => cases call <;> rfl
  | _ => rfl

/-- **What others do is the same**, whatever the upstream of task `k` has answered. -/
theorem Engine.move_swap {crypto : Crypto} {id : Nat} {current : Upstream} {t : Task} {e : Event}
    (ht : s.tasks[k]? = some t) (hshapes : t.Shapes current id) (he : ∀ a, e ≠ .task k a) :
    (s.swap k upstream).move crypto e = Step.swap k upstream (s.move crypto e) := by
  have hk := (List.getElem?_eq_some_iff.mp ht).1
  unfold Engine.move
  rw [Engine.lifecycle_swap hk, Engine.taskStep_swap ht hshapes he, Engine.callStep_swap]
  cases s.lifecycle e with
  | some step => rfl
  | none =>
      cases s.taskStep crypto e with
      | some step => rfl
      | none => rfl

theorem Engine.step_swap {crypto : Crypto} {id : Nat} {current : Upstream} {t : Task} {e : Event}
    (ht : s.tasks[k]? = some t) (hshapes : t.Shapes current id) (he : ∀ a, e ≠ .task k a) :
    (s.swap k upstream).step crypto e =
      (s.step crypto e).map fun s' => s'.swap k upstream := by
  unfold Engine.step
  rw [Engine.move_swap ht hshapes he]
  cases s.move crypto e with
  | none => rfl
  | some move =>
      obtain ⟨sec, p⟩ := move
      cases sec <;> rfl

end Moves

/-! ## What its task does -/

/-- The task shows nothing of its exchange any more. -/
inductive Task.Mute (id : Nat) (t : Task) : Prop
  | gone : t.pc = .gone → Mute id t
  | serving {x op todo} : t.pc = .serving x op todo → x.id = id →
      (op.response?.isSome = true ∨ ∃ response, op = .refused response) →
      (∀ errand ∈ todo, errand.shows = false) → .change .tls ∉ todo → Mute id t

section Steps

variable {upstream current : Upstream} {id k now : Nat} {s : State} {t t' : Task} {a : Answer}
  {sec : Section}

theorem Task.mute_refuse {x : Handling} {error : ForwardError} (hid : x.id = id) :
    (t.after x (x.refuse t.seen error)).Mute id :=
  .serving rfl hid (.inr ⟨_, rfl⟩)
    (by simp [Handling.refuse, Exchange.finish, Errand.shows, Change.shows])
    (by simp [Handling.refuse, Exchange.finish])

theorem Draft.swap_applyRule (hstatus : current.status = upstream.status)
    (rule : Option ResponseRule) :
    { (Draft.ofUpstream current).applyRule rule with headers := upstream.headers } =
      (Draft.ofUpstream upstream).applyRule rule := by
  cases rule with
  | none =>
      show Draft.mk current.status upstream.headers none = Draft.mk upstream.status upstream.headers none
      rw [hstatus]
  | some rule => rfl

theorem Draft.told_of_showsSame {draft draft' : Draft} (http2 : Bool)
    (hstatus : draft.status = draft'.status) (hreplacement : draft.replacement = draft'.replacement)
    (hheaders : HeaderMap.ShowsSame draft.headers draft'.headers) :
    draft.told http2 = draft'.told http2 := by
  unfold Draft.told Draft.response
  rw [hreplacement]
  cases draft'.replacement with
  | none =>
      dsimp only
      rw [hstatus, hheaders.safeHeaders]
  | some replacement =>
      obtain ⟨body, contentType⟩ := replacement
      dsimp only
      rw [hstatus, (hheaders.replacedHeaders http2 body contentType).safeHeaders]

/-- A move towards the response, there and here. -/
structure Move.Swapped (current upstream : Upstream) (m m' : Move) : Prop where
  shapes : m.op.Shapes current
  op : m'.op = m.op.swap upstream
  todo : m'.todo = m.todo
  seen : m'.seen = { m.seen with upstream := some upstream }
  body : m.body = none ∧ m'.body = none

/-- A move that has shaped it. -/
structure Move.Shaped (m : Move) : Prop where
  response : m.op.response?.isSome = true
  todo : m.todo = []

section Moves

variable {proxy : SocketAddr} {tls : Option ProxyTlsInterception} {http2 : Bool} {x : Handling}
  {seen : Seen} {draft : Draft} {m m' : Move}

theorem Op.answered_swap (hstatus : current.status = upstream.status) {authority : Authority}
    (h : (Op.answered authority current).step proxy tls http2 s x seen a = some m)
    (h' : (Op.answered authority upstream).step proxy tls http2 s x
      { seen with upstream := some upstream } a = some m') :
    m'.act = m.act ∧ m.Swapped current upstream m' := by
  cases a with
  | go =>
      cases h
      cases h'
      have hheaders : ((Draft.ofUpstream current).applyRule (s.findRule x authority)).headers =
          current.headers := by
        cases s.findRule x authority <;> rfl
      refine ⟨rfl, .breaking hheaders, ?_, ?_, rfl, rfl, rfl⟩
      · exact congrArg (Op.breaking upstream) (Draft.swap_applyRule hstatus _).symm
      · dsimp only
        rw [hstatus]
  | _ => cases h

theorem Op.breaking_swap (hheaders : draft.headers = current.headers)
    (h : (Op.breaking current draft).step proxy tls http2 s x seen a = some m)
    (h' : (Op.breaking upstream { draft with headers := upstream.headers }).step proxy tls http2 s x
      { seen with upstream := some upstream } a = some m') :
    m'.act = m.act ∧ m.Swapped current upstream m' := by
  cases a with
  | go =>
      have hstep : answerStep http2 s x seen (.breaking current draft) .go = some m := h
      have hstep' : answerStep http2 s x { seen with upstream := some upstream }
          (.breaking upstream { draft with headers := upstream.headers }) .go = some m' := h'
      unfold answerStep at hstep hstep'
      dsimp only at hstep hstep'
      split_ifs at hstep hstep'
      · cases hstep
        cases hstep'
        exact ⟨rfl, .paused hheaders, rfl, rfl, rfl, rfl, rfl⟩
      · cases hstep
        cases hstep'
        exact ⟨rfl, .shaping hheaders, rfl, rfl, rfl, rfl, rfl⟩
  | _ => cases h

theorem Op.paused_swap {received : Option BreakpointDecision}
    (hheaders : draft.headers = current.headers)
    (h : (Op.paused current draft received).step proxy tls http2 s x seen a = some m)
    (h' : (Op.paused upstream { draft with headers := upstream.headers } received).step proxy tls http2
      s x { seen with upstream := some upstream } a = some m') :
    m'.act = m.act ∧ m.Swapped current upstream m' := by
  cases a with
  | wake =>
      cases h
      cases h'
      have hdecided : (draft.decide received).headers = current.headers := by
        rw [← hheaders]
        cases received <;> rfl
      refine ⟨rfl, .shaping hdecided, ?_, rfl, rfl, rfl, rfl⟩
      cases received <;> rfl
  | _ => cases h

/-- The step that shapes the response tells of it. -/
theorem Op.step_shaping (h : (Op.shaping upstream draft).step proxy tls http2 s x seen a = some m) :
    m.Shaped ∧ m.act = .change (draft.told http2) := by
  cases a with
  | go =>
      have hstep : answerStep http2 s x seen (.shaping upstream draft) .go = some m := h
      unfold answerStep at hstep
      unfold Draft.told
      dsimp only at hstep
      cases hreplacement : draft.replacement with
      | none =>
          rw [hreplacement] at hstep
          cases hstep
          exact ⟨⟨rfl, rfl⟩, rfl⟩
      | some replacement =>
          rw [hreplacement] at hstep
          cases hstep
          exact ⟨⟨rfl, rfl⟩, rfl⟩
  | _ => cases h

/-- **A move of the operation** acts the same there. -/
theorem Op.step_swap (hsame : current.ShowsSame upstream) {op : Op} (hop : op.Shapes current)
    (h : op.step proxy tls http2 s x seen a = some m)
    (h' : (op.swap upstream).step proxy tls http2 s x { seen with upstream := some upstream } a =
      some m') :
    m'.act = m.act ∧ (m.Swapped current upstream m' ∨ m.Shaped ∧ m'.Shaped) := by
  cases hop with
  | answered =>
      obtain ⟨hact, hswapped⟩ := Op.answered_swap hsame.status h h'
      exact ⟨hact, .inl hswapped⟩
  | breaking hheaders =>
      obtain ⟨hact, hswapped⟩ := Op.breaking_swap hheaders h h'
      exact ⟨hact, .inl hswapped⟩
  | paused hheaders =>
      obtain ⟨hact, hswapped⟩ := Op.paused_swap hheaders h h'
      exact ⟨hact, .inl hswapped⟩
  | @shaping draft hheaders =>
      obtain ⟨hshaped, hact⟩ := Op.step_shaping h
      obtain ⟨hshaped', hact'⟩ := Op.step_shaping h'
      refine ⟨?_, .inr ⟨hshaped, hshaped'⟩⟩
      rw [hact, hact']
      have hshown : HeaderMap.ShowsSame draft.headers upstream.headers := by
        rw [hheaders]
        exact hsame.headers
      have htold : draft.told http2 = Draft.told http2 { draft with headers := upstream.headers } :=
        Draft.told_of_showsSame http2 rfl rfl hshown
      rw [htold]

end Moves

theorem Task.mute_shaped {x : Handling} {m : Move} (hid : x.id = id) (h : m.Shaped) :
    (t.after x m).Mute id := by
  refine .serving rfl hid (.inl h.response) ?_ ?_
  · rw [h.todo]
    exact fun errand hmem => absurd hmem List.not_mem_nil
  · rw [h.todo]
    exact List.not_mem_nil

theorem Task.after_swap {x : Handling} {m m' : Move} (h : m.Swapped current upstream m') :
    (t.swap upstream).after x m' = (t.after x m).swap upstream := by
  unfold Task.after
  rw [h.op, h.todo, h.seen, h.body.1, h.body.2]
  rfl

/-- **A step of the task itself** is the same there, and either it still has to shape its response or
it has nothing more to show. -/
theorem Task.step_swap {crypto : Crypto} (hsame : current.ShowsSame upstream)
    (ht : t.Shapes current id) (h : t.step crypto s now k a = some (sec, t')) {sec' : Section}
    {t'' : Task} (h' : (t.swap upstream).step crypto s now k a = some (sec', t'')) :
    sec' = sec ∧ ((t'.Shapes current id ∧ t'' = t'.swap upstream) ∨
      (t'.Mute id ∧ t''.Mute id)) := by
  obtain ⟨x, op, todo, hpc, hid, hop⟩ := ht
  have hpc' : (t.swap upstream).pc = .serving x (op.swap upstream) todo := by
    show t.pc.swap upstream = _
    rw [hpc]
    rfl
  rw [Task.step, hpc] at h
  rw [Task.step, hpc'] at h'
  cases todo with
  | cons errand todo =>
      dsimp only at h h'
      split_ifs at h h'
      cases h
      cases h'
      exact ⟨rfl, .inl ⟨⟨x, op, todo, rfl, hid, hop⟩, rfl⟩⟩
  | nil =>
      dsimp only at h h'
      split_ifs at h h'
      · cases h
        cases h'
        exact ⟨rfl, .inr ⟨.gone rfl, .gone rfl⟩⟩
      · cases h
        cases h'
        exact ⟨rfl, .inr ⟨Task.mute_refuse hid, Task.mute_refuse hid⟩⟩
      · obtain ⟨m, hm, heq⟩ := Option.map_eq_some_iff.mp h
        obtain ⟨m', hm', heq'⟩ := Option.map_eq_some_iff.mp h'
        have hlistening : (t.swap upstream).listening = t.listening := rfl
        have hseen : (t.swap upstream).seen = { t.seen with upstream := some upstream } := rfl
        rw [hlistening, Task.origin_swap, hseen] at hm'
        obtain ⟨hact, hor⟩ := Op.step_swap hsame hop hm hm'
        obtain ⟨rfl, rfl⟩ := Prod.mk.inj heq
        obtain ⟨rfl, rfl⟩ := Prod.mk.inj heq'
        refine ⟨by rw [hact], ?_⟩
        rcases hor with hswapped | ⟨hshaped, hshaped'⟩
        · exact .inl ⟨⟨x, _, _, rfl, hid, hswapped.shapes⟩, Task.after_swap hswapped⟩
        · exact .inr ⟨Task.mute_shaped hid hshaped, Task.mute_shaped hid hshaped'⟩

end Steps

/-! ## After that -/

/-- An operation that returns a response, or has none to return. -/
def Op.mute (op : Op) : Prop := op.response?.isSome = true ∨ ∃ response, op = .refused response

theorem Op.mute_of_step {proxy : SocketAddr} {tls : Option ProxyTlsInterception} {http2 : Bool}
    {s : State} {x : Handling} {seen : Seen} {op : Op} {a : Answer} {m : Move} (hop : op.mute)
    (h : op.step proxy tls http2 s x seen a = some m) :
    m.op.mute ∧ op.routes = false ∧ ∀ change, m.act ≠ .change change := by
  have hearly : op.routes = false ∧ op.early = false := by
    rcases hop with hresponse | ⟨response, rfl⟩
    · cases op <;> first | exact ⟨rfl, rfl⟩ | cases hresponse
    · exact ⟨rfl, rfl⟩
  refine ⟨?_, hearly.1, fun change hact => ?_⟩
  · rcases Op.step_cases h with hasked | hanswered
    · rw [hasked.early] at hearly
      cases hearly.2
    · cases hanswered with
      | stored => exact .inl rfl
      | recorded => exact .inl rfl
      | checked => exact .inl rfl
      | onward _ _ _ response _ _ hop' =>
          refine .inl ?_
          rw [hop']
          rfl
      | _ => rcases hop with hresponse | ⟨response, heq⟩ <;> contradiction
  · rcases change_of_step h hact with ⟨authority, rfl, -⟩ | ⟨upstream, draft, rfl, -⟩
    · rcases hop with hresponse | ⟨response, heq⟩ <;> contradiction
    · rcases hop with hresponse | ⟨response, heq⟩ <;> contradiction

section Mute

variable {crypto : Crypto} {id k : Nat} {s s' : Engine} {e : Event}

/-- A step of a mute task shows nothing. -/
theorem Task.step_mute {s : State} {now : Nat} {t t' : Task} {a : Answer} {sec : Section}
    (ht : t.Mute id) (h : t.step crypto s now k a = some (sec, t')) :
    t'.Mute id ∧ sec.begins = none ∧
      ∀ id' change, sec = .update id' change → change.shows = false ∧ change ≠ .tls := by
  cases ht with
  | gone hgone =>
      rw [Task.step, hgone] at h
      cases h
  | @serving x op todo hpc hid hop hshows htls =>
      cases Task.runs_of_step hpc h with
      | @errand errand todo =>
          refine ⟨.serving rfl hid hop (fun errand hmem => hshows errand (List.mem_cons_of_mem _ hmem))
            fun hmem => htls (List.mem_cons_of_mem _ hmem), ?_, ?_⟩
          · cases errand <;> rfl
          · intro id' change heq
            have hshow := hshows errand List.mem_cons_self
            cases errand with
            | change c =>
                cases heq
                exact ⟨hshow, fun htls' => htls (htls' ▸ List.mem_cons_self)⟩
            | announce => cases heq
            | removeBody => cases heq
      | drop => exact ⟨.gone rfl, rfl, fun _ _ => Section.noConfusion⟩
      | deadline => exact ⟨Task.mute_refuse hid, rfl, fun _ _ => Section.noConfusion⟩
      | @operates a m hstep =>
          obtain ⟨hmute, hroutes, hact⟩ := Op.mute_of_step hop hstep
          refine ⟨.serving rfl hid hmute (shows_todo_of_step hstep) fun hmem => ?_, ?_, ?_⟩
          · rw [(Op.step_led hstep).tells hmem] at hroutes
            cases hroutes
          · cases m.act <;> rfl
          · intro id' change heq
            cases hact' : m.act with
            | change c => exact absurd hact' (hact c)
            | _ => rw [hact'] at heq; cases heq

/-- What others do leaves it mute. -/
theorem Engine.Became.mute {sec : Section} {i : Nat} {t t' : Task} (h : s.Became e sec i t t')
    (ht : t.Mute id) (hown : ∀ a, e ≠ .task i a) : t'.Mute id := by
  cases ht with
  | gone hgone => exact .gone (h.gone hgone)
  | serving hpc hid hop hshows htls =>
      cases h with
      | stays => exact .serving hpc hid hop hshows htls
      | moves => exact absurd rfl (hown _)
      | polls => exact .serving hpc hid hop hshows htls
      | hands hpc' =>
          cases hpc.symm.trans hpc'
          rcases hop with hresponse | ⟨response, heq⟩ <;> contradiction
      | receives _ hreceive =>
          unfold Task.receive at hreceive
          split at hreceive
          next hpc' =>
            cases hpc.symm.trans hpc'
            rcases hop with hresponse | ⟨response, heq⟩ <;> contradiction
          next => cases hreceive

/-- Task `k` has been the one to show something of the exchange, and has nothing more to show. -/
structure Engine.Mute (s : Engine) (k id : Nat) : Prop where
  old : id < s.shared.nextId
  sole : s.Sole id k
  task : ∃ t, s.tasks[k]? = some t ∧ t.Mute id

/-- **The captures of its exchange are shown as they were.** -/
theorem Engine.Mute.step (h : s.Mute k id) (hr : (engine crypto).Reachable s)
    (hstep : (engine crypto).step s e = some s') :
    s'.Mute k id ∧ ∀ c' ∈ s'.shared.traffic, c'.id = id →
      ∃ c ∈ s.shared.traffic, c.id = id ∧ c'.shown = c.shown := by
  obtain ⟨t, ht, hmute⟩ := h.task
  have hold := h.old
  obtain ⟨⟨sec, p⟩, hmove, rfl⟩ := Option.map_eq_some_iff.mp hstep
  have hmoved := Engine.moved_of_move hmove
  obtain ⟨t', ht', hbecame⟩ := hmoved.became ht
  have hafter : (p.log s.shared sec).tasks[k]? = some t' := by
    rw [Parties.log_tasks]
    exact ht'
  have hinner : ∀ r, e ≠ .inner k r := by
    rintro r rfl
    have hno {u : Task} {x : Handling} {tunnel : Authority} {route : TlsInterceptRoute}
        {http2 first : Bool} (hu : s.tasks[k]? = some u)
        (hpc : u.pc = .serving x (.serving tunnel route http2 first) []) : False := by
      cases ht.symm.trans hu
      cases hmute with
      | gone hgone => cases hgone.symm.trans hpc
      | serving hpc' _ hop =>
          cases hpc'.symm.trans hpc
          rcases hop with hresponse | ⟨response, heq⟩ <;> contradiction
    cases hmoved with
    | lifecycle hlife => cases hlife
    | innerFirst hu hpc => exact hno hu hpc
    | innerNext hu hpc => exact hno hu hpc
  have hnone : t'.Mute id ∧ s.moment crypto id e = none := by
    by_cases hown : ∃ a, e = .task k a
    · obtain ⟨a, rfl⟩ := hown
      obtain ⟨u, u', hu, htask, rfl⟩ := Engine.move_task hmove
      cases ht.symm.trans hu
      cases ht'.symm.trans (List.getElem?_set_self (List.getElem?_eq_some_iff.mp hu).1)
      obtain ⟨hmute', hbegins, hupdate⟩ := Task.step_mute hmute htask
      refine ⟨hmute', ?_⟩
      have hsec := Engine.section_of_move hmove
      by_cases hchange : ∃ change, sec = .update id change
      · obtain ⟨change, heq⟩ := hchange
        obtain ⟨hshows, htls⟩ := hupdate id change heq
        rw [Engine.moment_of_update (hsec.trans heq)]
        cases change <;> first | exact absurd rfl htls | rfl | cases hshows
      · unfold Engine.moment
        rw [hsec]
        cases sec with
        | begin => cases hbegins
        | update id' change => exact if_neg fun heq => hchange ⟨change, by rw [heq]⟩
        | _ => rfl
    · have hother : ∀ a, e ≠ .task k a := fun a heq => hown ⟨a, heq⟩
      exact ⟨hbecame.mute hmute hother, h.sole.moment hr hold hstep hother⟩
  refine ⟨⟨?_, h.sole.step hold hstep hinner, t', hafter, hnone.1⟩, ?_⟩
  · show id < (s.shared.apply s.clock sec).nextId
    rw [State.apply_nextId]
    omega
  · intro c' hc' hid
    rcases Engine.shown_step hr hstep hc' with ⟨c, hc, hcid, heq⟩ | ⟨_, -, hnew, -⟩
    · refine ⟨c, hc, hcid.trans hid, ?_⟩
      rw [heq, hid, hnone.2]
      rfl
    · omega

/-- The same over a run. -/
theorem Engine.Mute.run (h : s.Mute k id) (hr : (engine crypto).Reachable s) {es : List Event}
    (hrun : (engine crypto).runFrom s es = some s') :
    s'.Mute k id ∧ ∀ c' ∈ s'.shared.traffic, c'.id = id →
      ∃ c ∈ s.shared.traffic, c.id = id ∧ c'.shown = c.shown := by
  induction es generalizing s with
  | nil =>
      cases hrun
      exact ⟨h, fun c hc hid => ⟨c, hc, hid, rfl⟩⟩
  | cons e es ih =>
      obtain ⟨u, hstep, hrest⟩ := Option.bind_eq_some_iff.mp hrun
      obtain ⟨hmute, hkept⟩ := h.step hr hstep
      obtain ⟨hafter, hsame⟩ := ih hmute (.step hr trivial hstep) hrest
      refine ⟨hafter, fun c' hc' hid => ?_⟩
      obtain ⟨d, hd, hdid, heq⟩ := hsame c' hc' hid
      obtain ⟨c, hc, hcid, hshown⟩ := hkept d hd hdid
      exact ⟨c, hc, hcid, heq.trans hshown⟩

end Mute

/-! ## The two runs -/

section Runs

variable {crypto : Crypto} {upstream current : Upstream} {id k : Nat} {s : Engine}

/-- What others do leaves the task where it is. -/
theorem Engine.Became.shapes {e : Event} {sec : Section} {i : Nat} {t t' : Task}
    (h : s.Became e sec i t t') (ht : t.Shapes current id) (hown : ∀ a, e ≠ .task i a) :
    t'.Shapes current id := by
  obtain ⟨x, op, todo, hpc, hid, hop⟩ := ht
  cases h with
  | stays => exact ⟨x, op, todo, hpc, hid, hop⟩
  | moves => exact absurd rfl (hown _)
  | polls => exact ⟨x, op, todo, hpc, hid, hop⟩
  | hands hpc' =>
      cases hpc.symm.trans hpc'
      cases hop
  | receives _ hreceive =>
      unfold Task.receive at hreceive
      split at hreceive
      next hpc' =>
        cases hreceive
        cases hpc.symm.trans hpc'
        cases hop with
        | paused hheaders => exact ⟨x, _, _, rfl, hid, .paused hheaders⟩
      next => cases hreceive

/-- The exchange of such a task is its own. -/
theorem Task.Shapes.sole {t : Task} (h : t.Shapes current id) (hr : (engine crypto).Reachable s)
    (ht : s.tasks[k]? = some t) : id < s.shared.nextId ∧ s.Sole id k := by
  obtain ⟨x, op, todo, hpc, hid, hop⟩ := h
  have hconsistent := Engine.consistent hr
  have hhands : op.hands = true := by
    cases hop <;> rfl
  have hforwards : t.forwards? = some id := Task.at?_eq_some.mpr ⟨x, op, todo, hpc, hhands, hid⟩
  refine ⟨?_, fun i u hu hforwards' => Engine.single hr hu ht hforwards' hforwards⟩
  exact hconsistent.fresh _
    (hconsistent.served t (List.mem_of_getElem? ht) _ _ ⟨x, op, todo, hpc, hid, rfl⟩)

/-- Two runs have shown the same of the exchange, and its task has nothing more to show in either. -/
structure Engine.BothMute (s₁ s₂ : Engine) (k id : Nat) : Prop where
  here : s₁.Mute k id
  there : s₂.Mute k id
  same : ∀ c₁ ∈ s₁.shared.traffic, ∀ c₂ ∈ s₂.shared.traffic, c₁.id = id → c₂.id = id →
    c₁.shown = c₂.shown

/-- From then on each goes its own way, and still shows the same. -/
theorem Engine.BothMute.runs {s₁ s₂ s₁' s₂' : Engine} (h : s₁.BothMute s₂ k id)
    (hr : (engine crypto).Reachable s₁) (hr' : (engine crypto).Reachable s₂) {es es' : List Event}
    (hrun : (engine crypto).runFrom s₁ es = some s₁')
    (hrun' : (engine crypto).runFrom s₂ es' = some s₂') : s₁'.BothMute s₂' k id := by
  have hhere := h.here.run hr hrun
  have hthere := h.there.run hr' hrun'
  refine ⟨hhere.1, hthere.1, fun c₁ hc₁ c₂ hc₂ hid₁ hid₂ => ?_⟩
  obtain ⟨d₁, hd₁, hdid₁, heq₁⟩ := hhere.2 c₁ hc₁ hid₁
  obtain ⟨d₂, hd₂, hdid₂, heq₂⟩ := hthere.2 c₂ hc₂ hid₂
  rw [heq₁, heq₂, h.same d₁ hd₁ d₂ hd₂ hdid₁ hdid₂]

/-- What the task can do here it can do there. -/
theorem Op.exists_step_swap {proxy : SocketAddr} {tls : Option ProxyTlsInterception} {http2 : Bool}
    {s : State} {x : Handling} {seen : Seen} {op : Op} {a : Answer} {m : Move}
    (hop : op.Shapes current) (h : op.step proxy tls http2 s x seen a = some m) :
    ∃ m', (op.swap upstream).step proxy tls http2 s x { seen with upstream := some upstream } a =
      some m' := by
  cases hop with
  | answered =>
      cases a with
      | go => exact ⟨_, rfl⟩
      | _ => cases h
  | @breaking draft _ =>
      cases a with
      | go =>
          show ∃ m', answerStep http2 s x _ (.breaking upstream _) .go = some m'
          unfold answerStep
          dsimp only
          split_ifs
          · exact ⟨_, rfl⟩
          · exact ⟨_, rfl⟩
      | _ => cases h
  | paused =>
      cases a with
      | wake => exact ⟨_, rfl⟩
      | _ => cases h
  | @shaping draft _ =>
      cases a with
      | go =>
          show ∃ m', answerStep http2 s x _ (.shaping upstream _) .go = some m'
          unfold answerStep
          dsimp only
          cases draft.replacement with
          | none => exact ⟨_, rfl⟩
          | some replacement => exact ⟨_, rfl⟩
      | _ => cases h

theorem Task.exists_step_swap {s : State} {now : Nat} {t t' : Task} {a : Answer} {sec : Section}
    (ht : t.Shapes current id) (h : t.step crypto s now k a = some (sec, t')) :
    ∃ sec' t'', (t.swap upstream).step crypto s now k a = some (sec', t'') := by
  obtain ⟨x, op, todo, hpc, hid, hop⟩ := ht
  have hpc' : (t.swap upstream).pc = .serving x (op.swap upstream) todo := by
    show t.pc.swap upstream = _
    rw [hpc]
    rfl
  rw [Task.step, hpc] at h
  rw [Task.step, hpc']
  cases todo with
  | cons errand todo =>
      dsimp only at h ⊢
      split_ifs at h ⊢
      exact ⟨_, _, rfl⟩
  | nil =>
      have hawaits : (op.swap upstream).awaits = op.awaits := by
        cases hop <;> rfl
      have hsuspended : (op.swap upstream).suspended = op.suspended := by
        cases hop <;> rfl
      dsimp only at h ⊢
      rw [hawaits, hsuspended]
      split_ifs at h ⊢
      · exact ⟨_, _, rfl⟩
      · exact ⟨_, _, rfl⟩
      · obtain ⟨m, hm, -⟩ := Option.map_eq_some_iff.mp h
        obtain ⟨m', hm'⟩ : ∃ m', (op.swap upstream).step t.listening.address
            t.listening.tlsInterception t.origin.http2 s x
            { t.seen with upstream := some upstream } a = some m' := Op.exists_step_swap hop hm
        exact ⟨_, _, Option.map_eq_some_iff.mpr ⟨m', hm', rfl⟩⟩

/-- The step of a task that may take it. -/
theorem Engine.move_task_iff {a : Answer} {sec : Section} {p : Parties} :
    s.move crypto (.task k a) = some (sec, p) ↔
      ∃ t t', s.tasks[k]? = some t ∧ s.allows k t a = true ∧
        t.step crypto s.shared s.clock k a = some (sec, t') ∧
        p = { s.toParties with tasks := s.tasks.set k t' } := by
  have hmove : s.move crypto (.task k a) = s.taskStep crypto (.task k a) := by
    unfold Engine.move
    rw [show s.lifecycle (.task k a) = none from rfl]
    dsimp only
    cases s.taskStep crypto (.task k a) with
    | none => rfl
    | some step => rfl
  rw [hmove]
  constructor
  · intro h
    obtain ⟨t, ht, hstep⟩ := Option.bind_eq_some_iff.mp h
    split at hstep
    · cases hstep
    next hallows =>
      obtain ⟨⟨sec', t'⟩, htask, heq⟩ := Option.bind_eq_some_iff.mp hstep
      cases heq
      exact ⟨t, t', ht, by simpa using hallows, htask, rfl⟩
  · rintro ⟨t, t', ht, hallows, htask, rfl⟩
    refine Option.bind_eq_some_iff.mpr ⟨t, ht, ?_⟩
    rw [hallows]
    exact Option.bind_eq_some_iff.mpr ⟨(sec, t'), htask, rfl⟩

/-- It may do the same there. -/
theorem Task.Shapes.allows_swap {t : Task} (h : t.Shapes current id) (p : Parties) (a : Answer) :
    p.allows k (t.swap upstream) a = p.allows k t a := by
  obtain ⟨x, op, todo, hpc, -, hop⟩ := h
  have hpc' : (t.swap upstream).pc = .serving x (op.swap upstream) todo := by
    show t.pc.swap upstream = _
    rw [hpc]
    rfl
  unfold Parties.allows
  rw [hpc, hpc', Task.origin_swap]
  cases hop <;> cases a <;> rfl

/-- **What can happen here can happen there**, until the response has been shaped. -/
theorem Engine.exists_step_swap {s₁ : Engine} {e : Event} {t : Task} (ht : s.tasks[k]? = some t)
    (hshapes : t.Shapes current id) (h : (engine crypto).step s e = some s₁) :
    ∃ s₂, (engine crypto).step (s.swap k upstream) e = some s₂ := by
  by_cases hown : ∃ a, e = .task k a
  · obtain ⟨a, rfl⟩ := hown
    obtain ⟨⟨sec, p⟩, hmove, -⟩ := Option.map_eq_some_iff.mp h
    obtain ⟨u, t', hu, hallows, htask, -⟩ := Engine.move_task_iff.mp hmove
    cases ht.symm.trans hu
    obtain ⟨sec', t'', htask'⟩ :
        ∃ sec' t'', (t.swap upstream).step crypto s.shared s.clock k a = some (sec', t'') :=
      Task.exists_step_swap hshapes htask
    have hthere : (s.swap k upstream).tasks[k]? = some (t.swap upstream) := by
      rw [Engine.tasks_swap, ht, Option.map_some]
      exact congrArg some (if_pos rfl)
    have hallows' : (s.swap k upstream).allows k (t.swap upstream) a = true := by
      rw [Engine.allows_swap, hshapes.allows_swap]
      exact hallows
    exact ⟨_, Option.map_eq_some_iff.mpr
      ⟨_, Engine.move_task_iff.mpr ⟨_, t'', hthere, hallows', htask', rfl⟩, rfl⟩⟩
  · have hboth : (s.swap k upstream).step crypto e =
        (s.step crypto e).map fun s' => s'.swap k upstream :=
      Engine.step_swap ht hshapes fun a heq => hown ⟨a, heq⟩
    have h₁ : s.step crypto e = some s₁ := h
    rw [h₁, Option.map_some] at hboth
    exact ⟨_, hboth⟩

/-- The upstream answers an operation that has sent the request. -/
theorem Op.step_upstream {proxy : SocketAddr} {tls : Option ProxyTlsInterception} {http2 : Bool}
    {s : State} {x : Handling} {seen : Seen} {op : Op} {m : Move}
    (h : op.step proxy tls http2 s x seen (.upstream (some upstream)) = some m) :
    ∃ authority, op = .sending authority ∧
      m = { op := .answered authority upstream, seen := { seen with upstream := some upstream } } := by
  cases op with
  | sending authority =>
      cases h
      exact ⟨authority, rfl, rfl⟩
  | returned response =>
      have hstep : answerStep http2 s x seen (.returned response) (.upstream (some upstream)) =
          some m := h
      unfold answerStep at hstep
      dsimp only at hstep
      split at hstep <;> cases hstep
  | _ => cases h

theorem Task.step_upstream {s : State} {now : Nat} {t t' : Task} {x : Handling} {op : Op}
    {todo : List Errand} {sec : Section} (hpc : t.pc = .serving x op todo)
    (h : t.step crypto s now k (.upstream (some upstream)) = some (sec, t')) :
    ∃ authority, op = .sending authority ∧ sec = .nothing ∧ t' = t.after x
      { op := .answered authority upstream, seen := { t.seen with upstream := some upstream } } := by
  cases Task.runs_of_step hpc h with
  | operates hstep =>
      obtain ⟨authority, hop, rfl⟩ := Op.step_upstream hstep
      exact ⟨authority, hop, rfl, rfl⟩

/-- **The upstream answers**, in both runs. -/
theorem Engine.answered_swap {s₁ s₂ : Engine} {t : Task} {x : Handling} {op : Op} {todo : List Errand}
    (ht : s.tasks[k]? = some t) (hpc : t.pc = .serving x op todo)
    (h₁ : (engine crypto).step s (.task k (.upstream (some current))) = some s₁)
    (h₂ : (engine crypto).step s (.task k (.upstream (some upstream))) = some s₂) :
    s₂ = s₁.swap k upstream ∧ ∃ t₁, s₁.tasks[k]? = some t₁ ∧ t₁.Shapes current x.id := by
  obtain ⟨u, sec, t₁, hu, htask, rfl⟩ := Engine.step_task h₁
  obtain ⟨u', sec', t₂, hu', htask', rfl⟩ := Engine.step_task h₂
  cases ht.symm.trans hu
  cases ht.symm.trans hu'
  obtain ⟨authority, rfl, rfl, rfl⟩ := Task.step_upstream hpc htask
  obtain ⟨authority', hop, rfl, rfl⟩ := Task.step_upstream hpc htask'
  cases hop
  refine ⟨?_, _, Engine.advanced_tasks ht, x, _, _, rfl, rfl, .answered⟩
  have hset := modify_set_self (f := Task.swap upstream) (a := t.after x
    { op := .answered authority current, seen := { t.seen with upstream := some current } })
    (List.getElem?_eq_some_iff.mp ht).1
  unfold Engine.advanced Engine.swap Parties.swap
  show Engine.mk { s.toParties with tasks := _ } _ =
    Engine.mk { s.toParties with tasks := (s.tasks.set k _).modify k (Task.swap upstream) } _
  rw [hset]
  rfl

end Runs

end SippinSoda
