import SippinSoda.Engine.Consistent

/-!
# What is held belongs to a capture

Bodies are stored while captures come and go, so a producer looks again after it has
inserted one, and removes it if its capture is gone.

* **rechecks** — a producer between its insertion and the end of this second look;
* **Filed** — every breakpoint and every replay template belongs to a capture that is there;
* **Retains** — so does every body, unless its producer still rechecks it;
* **nothing_outlives_its_capture** — what this means once nobody rechecks.

The response path and the redacted requests look again; the path of replacement bodies does
not, and inserts a body whose capture may be gone.
-/

namespace SippinSoda

/-! ## Producers -/

/-- The exchange whose response body the task has inserted without having finished looking
whether its capture is still there. -/
def Task.rechecks? (t : Task) : Option Nat :=
  match t.pc with
  | .serving x (.checking _ _) _ => some x.id
  | .serving x _ todo => if todo.contains .removeBody then some x.id else none
  | _ => none

/-- The same of a store task and the request body. -/
def StoreTask.rechecks? (t : StoreTask) : Option Nat :=
  match t.point with
  | .storing | .ended => none
  | _ => some t.exchange.id

/-- No store operation is between its insertion and the end of its owner's second look. -/
def Engine.Quiet (s : Engine) : Prop :=
  (∀ t ∈ s.tasks, t.rechecks? = none) ∧ ∀ t ∈ s.stores, t.rechecks? = none

instance (s : Engine) : Decidable s.Quiet := inferInstanceAs (Decidable (_ ∧ _))

def Task.rechecks (t : Task) (id : Nat) : Prop :=
  ∃ x op todo, t.pc = .serving x op todo ∧ x.id = id ∧
    ((∃ upstream response, op = .checking upstream response) ∨ Errand.removeBody ∈ todo)

theorem Task.rechecks?_of_rechecks {t : Task} {id : Nat} (h : t.rechecks id) :
    t.rechecks? = some id := by
  obtain ⟨x, op, todo, hpc, rfl, ⟨upstream, response, rfl⟩ | htodo⟩ := h
  · rw [Task.rechecks?, hpc]
  · rw [Task.rechecks?, hpc]
    cases op <;> simp [htodo]

/-- A task that rechecks goes on with it, removes the body, or has found the capture. -/
theorem Task.Moved.rechecks {s : State} {now k : Nat} {t t' : Task} {a : Answer} {sec : Section}
    (h : t.Moved s now k a sec t') {id : Nat} (ht : t.rechecks id) :
    t'.rechecks id ∨ sec = .removeResponse id ∨ (s.Retained id ∧ sec = .nothing) := by
  obtain ⟨x, op, todo, hpc, rfl, hwhy⟩ := ht
  cases h.goes hpc with
  | errand =>
      rcases hwhy with hop | htodo
      · exact .inl ⟨_, _, _, rfl, rfl, .inl hop⟩
      · rcases List.mem_cons.mp htodo with rfl | htodo
        · exact .inr (.inl rfl)
        · exact .inl ⟨_, _, _, rfl, rfl, .inr htodo⟩
  | drop hop =>
      rcases hwhy with ⟨upstream, response, rfl⟩ | htodo
      · cases hop
      · cases htodo
  | deadline hop =>
      rcases hwhy with ⟨upstream, response, rfl⟩ | htodo
      · cases hop
      · cases htodo
  | asked _ hasked =>
      rcases hwhy with ⟨upstream, response, rfl⟩ | htodo
      · cases hasked.early
      · cases htodo
  | answered hanswered =>
      rcases hwhy with ⟨upstream, response, rfl⟩ | htodo
      · cases hanswered with
        | checked =>
            by_cases hret : s.Retained x.id
            · exact .inr (.inr ⟨hret, rfl⟩)
            · refine .inl ⟨_, _, _, rfl, rfl, .inr ?_⟩
              simp [hret]
        | onward _ _ _ response' _ hop _ hne =>
            cases hop
            exact absurd rfl (hne upstream)
      · cases htodo

/-- A store task that rechecks goes on with it, removes the body, or has found the capture. -/
theorem StoreTask.rechecks_step {s : State} {t t' : StoreTask} {error : Option String}
    {sec : Section} (h : t.step s error = some (sec, t')) {id : Nat} (ht : t.rechecks? = some id) :
    t'.rechecks? = some id ∨ sec = .removeRequest id ∨ (s.Retained id ∧ sec = .nothing) := by
  obtain ⟨x, point⟩ := t
  cases point with
  | storing => cases ht
  | ended => cases ht
  | reporting outcome =>
      cases ht
      cases outcome <;> cases h <;> exact .inl rfl
  | announcing =>
      cases ht
      cases h
      exact .inl rfl
  | checking =>
      cases ht
      cases h
      by_cases hret : s.Retained x.id
      · exact .inr (.inr ⟨hret, rfl⟩)
      · simp [StoreTask.rechecks?, hret]
  | removing =>
      cases ht
      cases h
      exact .inr (.inl rfl)

/-- Who inserts a request body rechecks it. -/
theorem StoreTask.rechecks_of_insert {s : State} {t t' : StoreTask} {error : Option String}
    {id : Nat} (h : t.step s error = some (.insertRequest id, t')) : t'.rechecks? = some id := by
  obtain ⟨x, point⟩ := t
  cases point with
  | storing =>
      cases error <;> cases h
      rfl
  | reporting outcome => cases outcome <;> cases h
  | _ => cases h

/-! ## Over all the parties -/

/-- An operation elsewhere, with no errands left, rechecks nothing. -/
theorem Task.not_rechecks_of_pc {t : Task} {x : Handling} {op : Op}
    (hpc : t.pc = .serving x op []) (hop : ∀ upstream response, op ≠ .checking upstream response)
    {id : Nat} : ¬ t.rechecks id := by
  rintro ⟨y, op', todo, hpc', -, ⟨upstream, response, rfl⟩ | htodo⟩ <;>
    cases hpc.symm.trans hpc'
  · exact hop _ _ rfl
  · cases htodo

theorem Task.not_rechecks_of_receive {t t' : Task} {decision : BreakpointDecision}
    (h : t.receive decision = some t') {id : Nat} : ¬ t.rechecks id := by
  rw [Task.receive] at h
  split at h
  next hpc => exact Task.not_rechecks_of_pc hpc (by simp)
  next => cases h

/-- A task that rechecks is still doing so after an event, or the body is removed, or its
capture is there. -/
theorem Engine.Moved.rechecks {s : Engine} {e : Event} {sec : Section} {p : Parties}
    (h : s.Moved e sec p) {id : Nat} {t : Task} (ht : t ∈ s.tasks) (hre : t.rechecks id) :
    (∃ t' ∈ p.tasks, t'.rechecks id) ∨ sec = .removeResponse id ∨
      (s.shared.Retained id ∧ sec = .nothing) := by
  obtain ⟨i, hi⟩ := List.mem_iff_getElem?.mp ht
  obtain ⟨t', ht', hbecame⟩ := h.became hi
  have hmem := List.mem_of_getElem? ht'
  cases hbecame with
  | stays => exact .inl ⟨_, hmem, hre⟩
  | moves hallows hmoved => exact (hmoved.rechecks hre).imp_left fun h => ⟨_, hmem, h⟩
  | polls hbody hstep _ => exact .inl ⟨_, hmem, hre⟩
  | hands hpc => exact absurd hre (Task.not_rechecks_of_pc hpc (by simp))
  | receives hresolver hreceive => exact absurd hre (Task.not_rechecks_of_receive hreceive)

theorem Engine.Moved.store_rechecks {s : Engine} {e : Event} {sec : Section} {p : Parties}
    (h : s.Moved e sec p) {id : Nat} {t : StoreTask} (ht : t ∈ s.stores) (hre : t.rechecks? = some id) :
    (∃ t' ∈ p.stores, t'.rechecks? = some id) ∨ sec = .removeRequest id ∨
      (s.shared.Retained id ∧ sec = .nothing) := by
  cases h with
  | lifecycle hlife => exact .inl ⟨t, (outlives_lifecycle hlife).stores ▸ ht, hre⟩
  | body hk hbody hstep _ => exact .inl ⟨t, List.mem_append_left _ ht, hre⟩
  | store hk hstep =>
      rename_i k error u u'
      obtain ⟨i, hi⟩ := List.mem_iff_getElem?.mp ht
      have hlt := (List.getElem?_eq_some_iff.mp hk).1
      by_cases heq : i = k
      · cases Option.some.inj (hi.symm.trans (heq ▸ hk))
        exact (StoreTask.rechecks_step hstep hre).imp_left fun h => ⟨u', List.mem_set hlt _, h⟩
      · have hi' : (s.stores.set k u')[i]? = some t := by
          rw [List.getElem?_set_ne (Ne.symm heq), hi]
        exact .inl ⟨t, List.mem_of_getElem? hi', hre⟩
  | _ => exact .inl ⟨t, ht, hre⟩

/-! ## Breakpoints and templates -/

theorem State.retained_of_canModify {s : State} {id : Nat} (h : s.canModify id = true) :
    s.Retained id := by
  rw [State.canModify] at h
  cases hfind : s.capture? id with
  | none => simp [hfind] at h
  | some c =>
      exact ⟨c, List.mem_of_find?_eq_some hfind, by simpa using List.find?_some hfind⟩

/-- A capture that was there still is, if anything is held for it. -/
theorem State.Retained.of_holds {s : State} {now id : Nat} {sec : Section} (h : s.Retained id)
    (hholds : (s.apply now sec).Holds id) : (s.apply now sec).Retained id :=
  Decidable.byContradiction fun hgone => State.not_holds_apply h hgone hholds

/-- Inserting a body or opening a breakpoint loses no capture. -/
theorem State.Retained.of_not_tame {s : State} {now id : Nat} {sec : Section} (h : s.Retained id)
    (hsec : sec.tame = false) : (s.apply now sec).Retained id := by
  rw [State.retained_iff] at h ⊢
  cases sec with
  | openBreakpoint id' task status =>
      show id ∈ (s.update id' (Capture.pause status)).traffic.map Capture.id
      rwa [State.update_ids fun c => c.pause_id status]
  | insertRequest id' => exact h
  | insertResponse id' => exact h
  | _ => cases hsec

/-- A breakpoint is opened by the task of an exchange that may be modified. -/
theorem Engine.Moved.opens {s : Engine} {e : Event} {id task status : Nat} {p : Parties}
    (h : s.Moved e (.openBreakpoint id task status) p) :
    ∃ t t' x upstream draft, e = .task task .go ∧ s.tasks[task]? = some t ∧
      p.tasks[task]? = some t' ∧ x.id = id ∧ t.pc = .serving x (.breaking upstream draft) [] ∧
      t'.pc = .serving x (.paused upstream draft none) [] ∧
      s.shared.breakOnResponses = true ∧ s.shared.canModify id = true := by
  rcases h.tame with htame | ⟨k, a, t, t', rfl, ht, ht', hm⟩ | ⟨_, _, _, _, _, _, _, hstep⟩
  · cases htame
  · rcases hm.tame with htame | ⟨x, op, hpc, ⟨upstream, draft, _, rfl, rfl, hbreak, hmodify, hsec, hpc'⟩ |
      ⟨_, _, _, hsec, _⟩ | ⟨_, _, _, hsec⟩⟩
    · cases htame
    · cases hsec
      exact ⟨t, t', x, upstream, draft, rfl, ht, ht', rfl, hpc, hpc', hbreak, hmodify⟩
    all_goals cases hsec
  · rcases StoreTask.step_insertRequest hstep with htame | hsec
    · cases htame
    · cases hsec

/-- Breakpoints and replay templates belong to captures that are there. -/
structure Engine.Filed (s : Engine) : Prop where
  breakpoints : ∀ id ∈ s.shared.breakpoints.map Prod.fst, s.shared.Retained id
  templates : ∀ id ∈ s.shared.replayTemplates.map Prod.fst, s.shared.Retained id

theorem Engine.Filed.step {crypto : Crypto} {s s' : Engine} {e : Event} (h : s.Filed)
    (hstep : s.step crypto e = some s') : s'.Filed := by
  obtain ⟨sec, p, hmoved, hshared, -⟩ := step_cases hstep
  constructor
  · intro id hid
    rw [hshared] at hid ⊢
    obtain ⟨⟨id', task⟩, hmem, rfl⟩ := List.mem_map.mp hid
    rcases State.mem_apply_breakpoints hmem with ⟨hold, -⟩ | ⟨status, rfl⟩
    · exact (h.breakpoints _ (List.mem_map_of_mem hold)).of_holds (.inr (.inr (.inl hid)))
    · obtain ⟨_, _, _, _, _, _, _, _, _, _, _, _, hmodify⟩ := hmoved.opens
      exact (State.retained_of_canModify hmodify).of_not_tame rfl
  · intro id hid
    rw [hshared] at hid ⊢
    rcases State.mem_apply_replayTemplates hid with hold | hret
    · exact (h.templates id hold).of_holds (.inr (.inr (.inr hid)))
    · exact hret

theorem Engine.filed {crypto : Crypto} {s : Engine} (h : (engine crypto).Reachable s) : s.Filed :=
  h.invariant ⟨fun _ h => absurd h List.not_mem_nil, fun _ h => absurd h List.not_mem_nil⟩
    fun hs _ hstep => hs.step hstep

/-! ## Bodies -/

/-- The exchange whose replacement body an event stores. -/
def Engine.storing? (s : Engine) : Event → Option Nat
  | .task k (.stored none) =>
      match s.tasks[k]? with
      | none => none
      | some t =>
        match t.pc with
        | .serving x (.storing _) [] => some x.id
        | _ => none
  | _ => none

/-- A replacement body is inserted only while the capture of its exchange is there. -/
def storesRetained (s : Engine) (e : Event) : Prop :=
  ∀ id ∈ s.storing? e, s.shared.Retained id

instance (s : Engine) (e : Event) : Decidable (storesRetained s e) :=
  match h : s.storing? e with
  | none => .isTrue (by simp [storesRetained, h])
  | some id => decidable_of_iff (s.shared.Retained id) (by simp [storesRetained, h])

/-- The bodies that are held belong to captures, or are being rechecked. -/
structure Engine.Retains (s : Engine) : Prop where
  responses : ∀ id ∈ s.shared.responseBodies, s.shared.Retained id ∨ ∃ t ∈ s.tasks, t.rechecks id
  requests : ∀ id ∈ s.shared.requestBodies,
    s.shared.Retained id ∨ ∃ t ∈ s.stores, t.rechecks? = some id

theorem Engine.Retains.step {crypto : Crypto} {s s' : Engine} {e : Event} (h : s.Retains)
    (hguard : storesRetained s e) (hstep : s.step crypto e = some s') : s'.Retains := by
  obtain ⟨sec, p, hmoved, hshared, hparties⟩ := step_cases hstep
  have htasks : s'.tasks = p.tasks := by rw [hparties, Parties.log_tasks]
  have hstores : s'.stores = p.stores := by rw [hparties, Parties.log_stores]
  constructor
  · intro id hid
    rw [hshared] at hid ⊢
    rw [htasks]
    rcases State.mem_apply_responseBodies hid with ⟨hold, hne⟩ | rfl
    · rcases h.responses id hold with hret | ⟨t, ht, hre⟩
      · exact .inl (hret.of_holds (.inr (.inl hid)))
      · rcases hmoved.rechecks ht hre with hre' | hsec | ⟨hret, rfl⟩
        · exact .inr hre'
        · exact absurd hsec hne
        · exact .inl hret
    · rcases hmoved.tame with htame | ⟨k, a, t, t', rfl, ht, ht', hm⟩ | ⟨_, _, _, _, _, _, _, hstep⟩
      · cases htame
      · rcases hm.tame with htame | ⟨x, op, hpc, ⟨_, _, _, _, _, _, _, hsec, _⟩ |
          ⟨upstream, response, rfl, hsec, hpc'⟩ | ⟨response, rfl, rfl, hsec⟩⟩
        · cases htame
        · cases hsec
        · cases hsec
          exact .inr ⟨t', List.mem_of_getElem? ht', _, _, _, hpc', rfl, .inl ⟨_, _, rfl⟩⟩
        · cases hsec
          have hret : s.shared.Retained x.id := hguard x.id (by simp [storing?, ht, hpc])
          exact .inl (hret.of_not_tame rfl)
      · rcases StoreTask.step_insertRequest hstep with htame | hsec
        · cases htame
        · cases hsec
  · intro id hid
    rw [hshared] at hid ⊢
    rw [hstores]
    rcases State.mem_apply_requestBodies hid with ⟨hold, hne⟩ | rfl
    · rcases h.requests id hold with hret | ⟨t, ht, hre⟩
      · exact .inl (hret.of_holds (.inl hid))
      · rcases hmoved.store_rechecks ht hre with hre' | hsec | ⟨hret, rfl⟩
        · exact .inr hre'
        · exact absurd hsec hne
        · exact .inl hret
    · rcases hmoved.tame with htame | ⟨k, a, t, t', rfl, ht, ht', hm⟩ |
        ⟨k, error, t, t', rfl, ht, ht', hstep⟩
      · cases htame
      · rcases hm.tame with htame | ⟨x, op, hpc, ⟨_, _, _, _, _, _, _, hsec, _⟩ |
          ⟨_, _, _, hsec, _⟩ | ⟨_, _, _, hsec⟩⟩
        · cases htame
        all_goals cases hsec
      · exact .inr ⟨t', ht', StoreTask.rechecks_of_insert hstep⟩

theorem Engine.retains {crypto : Crypto} {s : Engine}
    (h : (engine crypto).Reach storesRetained s) : s.Retains :=
  h.invariant ⟨fun _ h => absurd h List.not_mem_nil, fun _ h => absurd h List.not_mem_nil⟩
    fun hs hguard hstep => hs.step hguard hstep

/-! ## After a clear -/

/-- Every capture in `traffic` has an id from `n` on, and so has every one to come. -/
def State.From (n : Nat) (s : State) : Prop := n ≤ s.nextId ∧ ∀ c ∈ s.traffic, n ≤ c.id

theorem State.From.apply {n : Nat} {s : State} (hordered : s.Ordered) (h : s.From n) (now : Nat)
    (sec : Section) : (s.apply now sec).From n := by
  refine ⟨?_, fun c hc => ?_⟩
  · rw [apply_nextId]
    exact Nat.le_add_right_of_le h.1
  · rcases hordered.class_apply hc with ⟨d, hd, hid, -⟩ | ⟨_, _, -, hid⟩
    · exact hid ▸ h.2 d hd
    · exact hid ▸ h.1

/-- A run keeps it. -/
theorem Engine.from_run {crypto : Crypto} {n : Nat} :
    ∀ {es : List Event} {s t : Engine}, (engine crypto).Reachable s → s.shared.From n →
      (engine crypto).runFrom s es = some t → t.shared.From n := by
  intro es
  induction es with
  | nil =>
      intro s t _ h hrun
      exact Option.some.inj hrun ▸ h
  | cons e es ih =>
      intro s t hr h hrun
      obtain ⟨u, hstep, hrest⟩ := Option.bind_eq_some_iff.mp hrun
      obtain ⟨sec, p, -, hshared, -⟩ := Engine.step_cases (show s.step crypto e = some u from hstep)
      refine ih (.step hr trivial hstep) ?_ hrest
      rw [hshared]
      exact h.apply (consistent hr).ordered _ _

theorem Engine.step_clear {crypto : Crypto} {s s' : Engine}
    (h : (engine crypto).step s .clear = some s') : s'.shared = s.shared.clear := by
  cases h
  rfl

/-! ## The result -/

/-- **Nothing outlives its capture**, as long as no replacement body is stored for a capture
that has gone: when no producer rechecks, every body, template and breakpoint belongs to a
capture in `traffic`; so once Clear has returned and the producers have settled, nothing is
left of the captures there were. -/
theorem nothing_outlives_its_capture {crypto : Crypto} {s : Engine}
    (h : (engine crypto).Reach storesRetained s) (hquiet : s.Quiet) :
    (∀ id, s.shared.Holds id → s.shared.Retained id) ∧
    ∀ before after es, (engine crypto).Reachable before →
      (engine crypto).step before .clear = some after →
      (engine crypto).runFrom after es = some s →
      ∀ id < before.shared.nextId, ¬ s.shared.Holds id := by
  have hretains := Engine.retains h
  have hfiled := Engine.filed h.reachable
  have hretained : ∀ id, s.shared.Holds id → s.shared.Retained id := by
    rintro id (hid | hid | hid | hid)
    · refine (hretains.requests id hid).resolve_right fun ⟨t, ht, hre⟩ => ?_
      exact absurd hre (by simp [hquiet.2 t ht])
    · refine (hretains.responses id hid).resolve_right fun ⟨t, ht, hre⟩ => ?_
      exact absurd (Task.rechecks?_of_rechecks hre) (by simp [hquiet.1 t ht])
    · exact hfiled.breakpoints id hid
    · exact hfiled.templates id hid
  refine ⟨hretained, fun before after es hbefore hclear hrun id hid hholds => ?_⟩
  have hfrom : after.shared.From before.shared.nextId := by
    rw [Engine.step_clear hclear]
    exact ⟨Nat.le_refl _, fun _ hc => absurd hc List.not_mem_nil⟩
  obtain ⟨c, hc, rfl⟩ := hretained id hholds
  have := (Engine.from_run (.step hbefore trivial hclear) hfrom hrun).2 c hc
  omega

/-- A configuration that records bodies and replaces every local response. -/
def mocking : ProxyConfig :=
  { ProxyConfig.default with
    captureBodies := true
    responseRules := [{
      id := "mock".toList, name := "mock".toList, enabled := true, host := "localhost".toList
      pathPrefix := ['/'], method := none, status := 418, body := some "hi".toList
      contentType := none }] }

/-- A mocked exchange up to the store of its body. -/
def mocked : List Event :=
  starting mocking ++ [.accept] ++
    answers 0 (untilSent (plainGet localhost) ++
      [.go, .upstream (some ⟨200, [], false, []⟩), .go, .go, .go, .go, .go])

/-- The body is stored while its capture is there. -/
def mockedAndStored : List Event := mocked ++ answers 0 [.stored none, .go, .go]

/-- A clear comes before it is. -/
def mockedAndCleared : List Event := mocked ++ [.clear] ++ answers 0 [.stored none, .go, .go]

theorem mocked_response_is_retained :
    (((engine .unused).run mockedAndStored).get (by decide)).shared.Retained 1 :=
  (nothing_outlives_its_capture
    (Machine.reach_get (m := engine .unused) mockedAndStored (by decide) (by decide))
    (by decide)).1 1 (.inr (.inl (by decide)))

/-- The body of a cleared capture stays when it is stored after the clear. -/
theorem cleared_body_stays :
    (∃ s, (engine .unused).run mockedAndCleared = some s ∧ s.Quiet ∧ s.shared.traffic = [] ∧
      s.shared.responseBodies = [1]) ∧
    ¬ ∀ s, (engine .unused).Reachable s → s.Quiet →
      ∀ id, s.shared.Holds id → s.shared.Retained id := by
  constructor
  · exact ⟨((engine .unused).run mockedAndCleared).get (by decide),
      (Option.some_get _).symm, by decide, by decide, by decide⟩
  · intro hall
    have hbad := hall _ (Machine.reachable_get (m := engine .unused) mockedAndCleared
      (by decide)) (by decide) 1 (.inr (.inl (by decide)))
    exact absurd hbad (by decide)

end SippinSoda
