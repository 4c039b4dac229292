import SippinSoda.Engine.Admission
import SippinSoda.Engine.Production

/-!
# Replays (`ProxyEngine::replay`)

A `replay` call is authorized, puts a token in the map and sends a request with that token to
the proxy itself. What the request may do is decided again when its task takes it up, from
the token alone: a Clear in between leaves an ordinary request.

* **Dispatch** — the request a call sends;
* **Marked** — a capture says which exchange it replays;
* **Replaying** — the task that has taken a replay up, point by point;
* **replay_is_not_downgraded** — the runs in which every replay finds its token.
-/

namespace SippinSoda

/-! ## The request that is sent -/

/-- A character of `URL_SAFE_NO_PAD`. -/
def isUrlSafeChar (c : Char) : Bool := Str.isAsciiAlphanumeric c || c == '-' || c == '_'

/-- What one call passes to `replay_through_proxy`; the token is Base64. -/
structure Dispatch where
  authorization : ReplayAuthorization
  template : ReplayTemplate
  token : Str
  encoded : token.all isUrlSafeChar = true

/-- The request `replay_through_proxy` writes, as the proxy reads it. -/
def Dispatch.request (d : Dispatch) : Request where
  method := d.template.method
  uri := d.template.uri
  headers := [("host".toList, (d.template.uri.authority.map Authority.text).getD []),
    (internalReplayHeader, d.token), ("connection".toList, "close".toList)] ++ d.template.headers
  bodyEnded := true

theorem isVisibleAscii_of_isUrlSafeChar {c : Char} (h : isUrlSafeChar c = true) :
    isVisibleAscii c = true := by
  unfold isUrlSafeChar at h
  simp only [Bool.or_eq_true, beq_iff_eq] at h
  unfold isVisibleAscii
  rcases h with (h | rfl) | rfl
  · have hrange : 32 ≤ c.toNat ∧ c.toNat < 127 := by
      simp only [Str.isAsciiAlphanumeric, Bool.or_eq_true, Bool.and_eq_true, decide_eq_true_eq,
        Char.le_def, UInt32.le_iff_toNat_le] at h
      simp only [Char.toNat]
      simp at h ⊢
      omega
    simp [hrange]
  · rfl
  · rfl

/-- The token the proxy finds in the request. -/
theorem Dispatch.replayToken? (d : Dispatch) : d.request.replayToken? = some d.token := by
  have hvisible : d.token.all isVisibleAscii = true :=
    List.all_eq_true.mpr fun c hc =>
      isVisibleAscii_of_isUrlSafeChar (List.all_eq_true.mp d.encoded c hc)
  have hget : d.request.headers.get internalReplayHeader = some d.token := rfl
  rw [Request.replayToken?, hget]
  show (if d.token.all isVisibleAscii then _ else _) = _
  rw [if_pos hvisible]

/-- A template that `replay_template` made. -/
def ReplayTemplate.Composed (template : ReplayTemplate) : Prop :=
  ∃ request, replayTemplate request = some template

theorem ReplayTemplate.Composed.credentials {template : ReplayTemplate} (h : template.Composed) :
    ∀ field ∈ template.headers, field.1 ≠ "proxy-authorization".toList := by
  obtain ⟨request, h⟩ := h
  unfold replayTemplate at h
  split at h
  · cases h
  · obtain rfl := Option.some.inj h
    dsimp only
    intro field hfield
    have hhop := HeaderMap.foldl_remove_subset unreplayedHeaders (stripHopHeaders request.headers)
      field hfield
    unfold stripHopHeaders at hhop
    have hname : "proxy-authorization".toList ∈ hopHeaders := by decide
    exact HeaderMap.not_mem_foldl_remove hname (by decide) _ field hhop

/-- A replay carries no credentials. -/
theorem ProxyClientAuth.accepts_dispatch {crypto : Crypto} (auth : ProxyClientAuth) {d : Dispatch}
    (h : d.template.Composed) : auth.accepts crypto d.request.unmarked.headers = false := by
  have hget : d.request.unmarked.headers.get "proxy-authorization".toList = none := by
    unfold Request.unmarked
    rw [HeaderMap.get_remove_of_ne (by decide)]
    refine HeaderMap.get_eq_none fun field hfield => ?_
    rcases List.mem_append.mp hfield with hfield | hfield
    · simp only [List.mem_cons, List.not_mem_nil, or_false] at hfield
      rcases hfield with rfl | rfl | rfl
      · show "host".toList ≠ _
        decide
      · show internalReplayHeader ≠ _
        decide
      · decide
    · exact h.credentials field hfield
  unfold ProxyClientAuth.accepts
  rw [hget]
  rfl

/-! ## Templates -/

/-- The template a call holds. -/
def Replay.template? : Replay → Option ReplayTemplate
  | .authorized _ template _ | .waiting _ template _ => some template
  | .returned _ => none

/-- Every template, in the map or in a call, was made from a request. -/
structure Engine.Composed (s : Engine) : Prop where
  templates : ∀ entry ∈ s.shared.replayTemplates, entry.2.Composed
  calls : ∀ call ∈ s.replays, ∀ template, call.template? = some template → template.Composed

/-- A template found after a section was there, or is that of the request it begins. -/
theorem State.mem_apply_templates {s : State} {now : Nat} {sec : Section}
    {entry : Nat × ReplayTemplate} (h : entry ∈ (s.apply now sec).replayTemplates) :
    entry ∈ s.replayTemplates ∨ entry.2.Composed := by
  cases sec with
  | begin request destination clientProfileId replayOf =>
      simp only [State.apply, State.begin] at h
      split at h
      next template htemplate =>
        rcases List.mem_cons.mp h with rfl | h
        · exact .inr ⟨request, htemplate⟩
        · exact .inl (s.within_makeRoom.replayTemplates (List.mem_of_mem_filter h))
      next => exact .inl (s.within_makeRoom.replayTemplates h)
  | clear => exact absurd h List.not_mem_nil
  | start settings address =>
      exact .inl (((s.configured settings).within_evictMany _).replayTemplates h)
  | _ => exact .inl h

theorem Engine.Composed.step {crypto : Crypto} {s s' : Engine} {e : Event} (h : s.Composed)
    (hstep : s.step crypto e = some s') : s'.Composed := by
  obtain ⟨sec, p, hmoved, hshared, hparties⟩ := step_cases hstep
  refine ⟨fun entry hentry => ?_, fun call hcall template htemplate => ?_⟩
  · rw [hshared] at hentry
    exact (State.mem_apply_templates hentry).elim (h.templates entry) id
  · have hcall : call ∈ p.replays := by
      rw [hparties] at hcall
      cases sec <;> exact hcall
    cases hmoved with
    | lifecycle hlife => exact h.calls call ((outlives_lifecycle hlife).replays ▸ hcall) _ htemplate
    | refusesReplay hrefused =>
        rcases List.mem_append.mp hcall with hcall | hcall
        · exact h.calls call hcall _ htemplate
        · cases List.mem_singleton.mp hcall
          cases htemplate
    | authorizesReplay hauthorized =>
        rcases List.mem_append.mp hcall with hcall | hcall
        · exact h.calls call hcall _ htemplate
        · cases List.mem_singleton.mp hcall
          cases htemplate
          exact h.templates _ (State.authorizeReplay_ok hauthorized).1
    | issuesToken hheld =>
        rcases List.mem_or_eq_of_mem_set hcall with hcall | rfl
        · exact h.calls call hcall _ htemplate
        · exact h.calls _ (List.mem_of_getElem? hheld) _ htemplate
    | returnsToken hheld =>
        rcases List.mem_or_eq_of_mem_set hcall with hcall | rfl
        · exact h.calls call hcall _ htemplate
        · cases htemplate
    | _ => exact h.calls call hcall _ htemplate

theorem Engine.composed {crypto : Crypto} {s : Engine} (h : (engine crypto).Reachable s) :
    s.Composed :=
  h.invariant ⟨fun _ hentry => absurd hentry List.not_mem_nil,
    fun _ hcall => absurd hcall List.not_mem_nil⟩ fun hs _ hstep => hs.step hstep

/-! ## Tasks and their captures -/

/-- Has the task begun an exchange, or is it over? -/
def Task.begun (t : Task) : Bool :=
  match t.pc with
  | .serving _ _ _ | .gone => true
  | _ => false

/-- The task of a request that has not begun an exchange is that of a connection. -/
def Engine.Received (s : Engine) : Prop := ∀ t ∈ s.tasks, t.begun = false → t.origin = .client

/-- What has begun does not begin again. -/
theorem Engine.Became.begun {s : Engine} {e : Event} {sec : Section} {i : Nat} {t t' : Task}
    (h : s.Became e sec i t t') (hbegun : t'.begun = false) : t.begun = false := by
  cases h with
  | stays => exact hbegun
  | moves hallows hmoved =>
      cases hmoved with
      | arrive hpc => rw [Task.begun, hpc]
      | admits _ hpc => rw [Task.begun, hpc]
      | unauthorized hpc => rw [Task.begun, hpc]
      | classify hpc => rw [Task.begun, hpc]
      | forbid hpc => rw [Task.begun, hpc]
      | _ => cases hbegun
  | polls hbody hstep _ => exact hbegun
  | hands hpc => cases hbegun
  | receives hresolver hreceive =>
      rw [Task.receive] at hreceive
      split at hreceive <;> cases hreceive
      cases hbegun

theorem Engine.Received.step {crypto : Crypto} {s s' : Engine} {e : Event} (h : s.Received)
    (hstep : s.step crypto e = some s') : s'.Received := by
  obtain ⟨sec, p, hmoved, -, hparties⟩ := step_cases hstep
  intro t' ht' hbegun
  rw [hparties, Parties.log_tasks] at ht'
  obtain ⟨i, hi⟩ := List.mem_iff_getElem?.mp ht'
  rcases hmoved.came hi with ⟨t, ht, hbecame⟩ | ⟨-, harrives⟩
  · rw [hbecame.origin]
    exact h t (List.mem_of_getElem? ht) (hbecame.begun hbegun)
  · cases harrives with
    | connection haccepting => rfl
    | innerFirst hk hpc => cases hbegun
    | innerNext hk hpc => cases hbegun

theorem Engine.received {crypto : Crypto} {s : Engine} (h : (engine crypto).Reachable s) :
    s.Received :=
  h.invariant (fun _ ht => absurd ht List.not_mem_nil) fun hs _ hstep => hs.step hstep

/-- A task that serves an exchange after a step has served it before, or begins it. -/
theorem Engine.Became.serving {s : Engine} {e : Event} {sec : Section} {i : Nat} {t t' : Task}
    (h : s.Became e sec i t t') {x : Handling} {op : Op} {todo : List Errand}
    (hpc : t'.pc = .serving x op todo) :
    (∃ op todo, t.pc = .serving x op todo) ∨
      x.id = s.shared.nextId ∧ ∃ request destination clientProfileId,
        sec = .begin request destination clientProfileId (x.replay.map (·.originId)) := by
  cases h with
  | stays => exact .inl ⟨op, todo, hpc⟩
  | moves hallows hmoved =>
      cases hmoved with
      | errand hold =>
          cases hpc
          exact .inl ⟨_, _, hold⟩
      | deadline hold =>
          cases hpc
          exact .inl ⟨_, _, hold⟩
      | asked hold =>
          cases hpc
          exact .inl ⟨_, _, hold⟩
      | answered hold =>
          cases hpc
          exact .inl ⟨_, _, hold⟩
      | begin hold =>
          cases hpc
          exact .inr ⟨rfl, _, _, _, rfl⟩
      | _ => cases hpc
  | polls hbody hstep _ => exact .inl ⟨op, todo, hpc⟩
  | hands hold =>
      cases hpc
      exact .inl ⟨_, _, hold⟩
  | receives hresolver hreceive =>
      rw [Task.receive] at hreceive
      split at hreceive
      next hold =>
        cases hreceive
        cases hpc
        exact .inl ⟨_, _, hold⟩
      next => cases hreceive

/-- The captures of connections say which exchange they replay. -/
def Engine.Marked (s : Engine) : Prop :=
  ∀ t ∈ s.tasks, t.origin = .client → ∀ x op todo, t.pc = .serving x op todo →
    ∀ c ∈ s.shared.traffic, c.id = x.id → c.replayOf = x.replay.map (·.originId)

/-- The capture of an exchange that has begun keeps what it replays. -/
theorem Engine.Consistent.replayOf_step {crypto : Crypto} {s s' : Engine} {e : Event}
    (hc : s.Consistent) (hstep : s.step crypto e = some s') {id : Nat} (hid : id < s.shared.nextId)
    {replayOf : Option Nat} (h : ∀ c ∈ s.shared.traffic, c.id = id → c.replayOf = replayOf) :
    ∀ c ∈ s'.shared.traffic, c.id = id → c.replayOf = replayOf := by
  obtain ⟨sec, p, -, hshared, -⟩ := step_cases hstep
  intro c' hc' heq
  rw [hshared] at hc'
  rcases hc.ordered.class_apply hc' with ⟨c, hmem, hsame, -, hreplay⟩ | ⟨_, _, -, hnew⟩
  · exact hreplay ▸ h c hmem (hsame.trans heq)
  · omega

theorem Engine.Marked.step {crypto : Crypto} {s s' : Engine} {e : Event} (hc : s.Consistent)
    (h : s.Marked) (hstep : s.step crypto e = some s') : s'.Marked := by
  obtain ⟨sec, p, hmoved, hshared, hparties⟩ := step_cases hstep
  intro t' ht' horigin x op todo hpc
  rw [hparties, Parties.log_tasks] at ht'
  obtain ⟨i, hi⟩ := List.mem_iff_getElem?.mp ht'
  rcases hmoved.came hi with ⟨t, ht, hbecame⟩ | ⟨-, harrives⟩
  · have hmem := List.mem_of_getElem? ht
    rcases hbecame.serving hpc with ⟨op', todo', hold⟩ | ⟨hid, request, destination, profile, rfl⟩
    · have hfresh : x.id < s.shared.nextId :=
        hc.fresh _ (hc.served t hmem _ _ ⟨x, op', todo', hold, rfl, rfl⟩)
      exact hc.replayOf_step hstep hfresh (h t hmem (hbecame.origin ▸ horigin) x _ _ hold)
    · intro c' hc' heq
      rw [hshared] at hc'
      rcases hc.ordered.class_apply hc' with ⟨c, hmem, hsame, -, -⟩ | ⟨_, _, hbegin, -⟩
      · have := hc.ordered.below c hmem
        omega
      · exact (Section.begin.inj hbegin).2.2.2.symm
  · cases harrives with
    | connection haccepting => cases hpc
    | innerFirst hk _ => cases horigin
    | innerNext hk _ => cases horigin

theorem Engine.marked {crypto : Crypto} {s : Engine} (h : (engine crypto).Reachable s) :
    s.Marked :=
  h.invariant_along (fun _ ht => absurd ht List.not_mem_nil)
    fun hr hs _ hstep => hs.step (consistent hr) hstep

/-- The same over a run. -/
theorem Engine.replayOf_run {crypto : Crypto} {id : Nat} {replayOf : Option Nat} :
    ∀ {es : List Event} {s s' : Engine}, (engine crypto).Reachable s → id < s.shared.nextId →
      (∀ c ∈ s.shared.traffic, c.id = id → c.replayOf = replayOf) →
      (engine crypto).runFrom s es = some s' →
      ∀ c ∈ s'.shared.traffic, c.id = id → c.replayOf = replayOf := by
  intro es
  induction es with
  | nil =>
      intro s s' _ _ h hrun
      exact Option.some.inj hrun ▸ h
  | cons e es ih =>
      intro s s' hreach hid h hrun
      obtain ⟨u, hstep, hrest⟩ := Option.bind_eq_some_iff.mp hrun
      have hstep : s.step crypto e = some u := hstep
      have hlater : id < u.shared.nextId := by
        obtain ⟨sec, p, -, hshared, -⟩ := step_cases hstep
        rw [hshared, State.apply_nextId]
        omega
      exact ih (.step hreach trivial hstep) hlater
        ((consistent hreach).replayOf_step hstep hid h) hrest

/-! ## The task of a replay -/

/-- The request of `d` went upstream as a replay, to the host of its template, which was a
Development one under `classifier`. -/
structure Forwarded (d : Dispatch) (classifier : DestinationClassifier) (seen : Seen) : Prop where
  replayed : seen.replayed = true
  noted : seen.destination = some .development
  classified : classifier.classify d.template.uri.host = .development
  dialed : ∀ host, seen.dialed = some host → host = trimBrackets d.template.uri.host

/-- The task that has taken the request of `d` up under `classifier`, by its program
counter. -/
inductive Replaying (d : Dispatch) (classifier : DestinationClassifier) (seen : Seen) : Pc → Prop
  | admitted : seen.sent = none → seen.replayed = true →
      Replaying d classifier seen (.admitted d.request.unmarked d.authorization.clientProfileId
        (some d.authorization))
  | classified : seen.sent = none → seen.replayed = true →
      Replaying d classifier seen (.classified d.request.unmarked d.authorization.clientProfileId
        (some d.authorization) (classifier.classify d.template.uri.host) classifier)
  | answered {response} : seen.sent = none → Replaying d classifier seen (.answered response)
  | serving {x op todo} : x.replay = some d.authorization → x.host = d.template.uri.host →
      x.destination = .development → classifier.classify d.template.uri.host = .development →
      seen.replayed = true → Replaying d classifier seen (.serving x op todo)
  | gone : (seen.sent.isSome = true → Forwarded d classifier seen) →
      Replaying d classifier seen .gone

/-- What a request that was sent is known to be. -/
theorem Replaying.forwarded {d : Dispatch} {classifier : DestinationClassifier} {t : Task}
    (h : Replaying d classifier t.seen t.pc) (htold : t.Told) (hsent : t.seen.sent.isSome = true) :
    Forwarded d classifier t.seen := by
  generalize hpc : t.pc = pc at h
  cases h with
  | admitted hnone => simp [hnone] at hsent
  | classified hnone => simp [hnone] at hsent
  | answered hnone => simp [hnone] at hsent
  | serving hreplay hhost hclass hclassified hreplayed =>
      obtain ⟨hclassed, hrouted, -⟩ := htold.of_serving hpc
      exact {
        replayed := hreplayed
        noted := hclassed.noted.trans (congrArg some hclass)
        classified := hclassified
        dialed := fun host hdialed => hhost ▸ hrouted.dialed host hdialed }
  | gone hforwarded => exact hforwarded hsent

/-- A step of the task, in a state whose classifier is the one it was taken up under. -/
theorem Task.Moved.replaying {s : State} {now k : Nat} {t t' : Task} {a : Answer} {sec : Section}
    (h : t.Moved s now k a sec t') {d : Dispatch} {classifier : DestinationClassifier}
    (hforce : t.over = false → s.destinationClassifier = classifier) (htold : t.Told)
    (ht : Replaying d classifier t.seen t.pc) : Replaying d classifier t'.seen t'.pc := by
  have hlive {request : Request} {clientProfileId : Option Str} {replay : Option ReplayAuthorization}
      (hpc : t.pc = .admitted request clientProfileId replay) :
      s.destinationClassifier = classifier := by
    refine hforce ?_
    rw [Task.over, hpc]
  cases h with
  | errand hpc =>
      rw [hpc] at ht
      cases ht with
      | serving hreplay hhost hclass hclassified hreplayed =>
          exact .serving hreplay hhost hclass hclassified hreplayed
  | drop => exact .gone fun hsent => ht.forwarded htold hsent
  | deadline hpc =>
      rw [hpc] at ht
      cases ht with
      | serving hreplay hhost hclass hclassified hreplayed =>
          exact .serving hreplay hhost hclass hclassified hreplayed
  | asked hpc hstep hasked =>
      rw [hpc] at ht
      cases ht with
      | serving hreplay hhost hclass hclassified hreplayed =>
          exact .serving hreplay hhost hclass hclassified (hasked.replayed.trans hreplayed)
  | answered hpc hanswered =>
      rw [hpc] at ht
      cases ht with
      | serving hreplay hhost hclass hclassified hreplayed =>
          refine .serving hreplay hhost hclass hclassified ?_
          cases hanswered <;> exact hreplayed
  | arrive hpc =>
      rw [hpc] at ht
      cases ht
  | admits _ hpc =>
      rw [hpc] at ht
      cases ht
  | unauthorized hpc =>
      rw [hpc] at ht
      cases ht
  | classify hpc =>
      have hsame := hlive hpc
      rw [hpc] at ht
      cases ht with
      | admitted hsent hreplayed =>
          subst hsame
          exact .classified hsent hreplayed
  | forbid hpc =>
      rw [hpc] at ht
      cases ht with
      | classified hsent => exact .answered hsent
  | begin hpc hallowed =>
      rw [hpc] at ht
      cases ht with
      | classified hsent hreplayed =>
          have hclass := (authorized_iff (by decide)).mp (hallowed rfl)
          exact .serving rfl rfl hclass hclass hreplayed

theorem Engine.Became.replaying {s : Engine} {e : Event} {sec : Section} {i : Nat} {t t' : Task}
    (h : s.Became e sec i t t') {d : Dispatch} {classifier : DestinationClassifier}
    (hforce : t.over = false → s.shared.destinationClassifier = classifier) (htold : t.Told)
    (ht : Replaying d classifier t.seen t.pc) : Replaying d classifier t'.seen t'.pc := by
  cases h with
  | stays => exact ht
  | moves hallows hmoved => exact hmoved.replaying hforce htold ht
  | polls hbody hstep _ => exact ht
  | hands hpc =>
      rw [hpc] at ht
      cases ht with
      | serving hreplay hhost hclass hclassified hreplayed =>
          exact .serving hreplay hhost hclass hclassified hreplayed
  | receives hresolver hreceive =>
      rw [Task.receive] at hreceive
      split at hreceive
      next hpc =>
        cases hreceive
        rw [hpc] at ht
        cases ht with
        | serving hreplay hhost hclass hclassified hreplayed =>
            exact .serving hreplay hhost hclass hclassified hreplayed
      next => cases hreceive

/-! ## Runs -/

/-- The step is the one in which a call puts its token in the map and goes on to send the
request of `d`. -/
def Engine.Sends (s : Engine) (d : Dispatch) (e : Event) : Prop :=
  ∃ k result, e = .replaying k result ∧
    s.replays[k]? = some (.authorized d.authorization d.template d.token)

/-- The step is the one in which task `k` takes that request up. -/
def Engine.TakesUp (s : Engine) (k : Nat) (request : Request) (e : Event) : Prop :=
  e = .task k .go ∧ (s.tasks[k]?).map Task.pc = some (.arrived request)

/-- The run has sent the request of `d`, and task `k` has taken it up under `classifier`. -/
def Delivered (crypto : Crypto) (d : Dispatch) (k : Nat) (classifier : DestinationClassifier) :
    List Event → Prop :=
  (engine crypto).Once fun before s e =>
    (engine crypto).Once (fun _ s e => s.Sends d e) before ∧ s.TakesUp k d.request e ∧
      s.shared.destinationClassifier = classifier

/-- What task `k` finds when it takes the request of `d` up: the authorization under its
token, or no token, with clients to be authenticated. -/
def Engine.Admits (s : Engine) (d : Dispatch) (k : Nat) : Prop :=
  s.shared.token? d.token = some d.authorization ∨
    s.shared.token? d.token = none ∧
      ((s.tasks[k]?).bind fun t => t.listening.clientAuth).isSome = true

/-- Every replay request that has been sent is taken up with its token in place, or by a proxy
that asks for credentials. -/
def ReplaysHonoured (crypto : Crypto) : List Event → Prop :=
  (engine crypto).Always fun before s e => ∀ d k,
    (engine crypto).Once (fun _ s e => s.Sends d e) before → s.TakesUp k d.request e → s.Admits d k

/-- What has been sent was made by `replay_template`. -/
theorem Dispatch.composed {crypto : Crypto} {d : Dispatch} {es : List Event}
    (h : (engine crypto).Once (fun _ s e => s.Sends d e) es) : d.template.Composed := by
  obtain ⟨before, e, after, s, -, hrun, k, result, -, hcall⟩ := h
  exact (Engine.composed (Machine.reachable_of_run before hrun)).calls _
    (List.mem_of_getElem? hcall) _ rfl

/-- The task that takes the request up is admitted by its token, or answered 407. -/
theorem Task.replaying_arrive {crypto : Crypto} {s : Engine} {d : Dispatch} {k : Nat} {t : Task}
    (ht : s.tasks[k]? = some t) (hpc : t.pc = .arrived d.request) (htold : t.Told)
    (hcomposed : d.template.Composed) (hadmits : s.Admits d k)
    (classifier : DestinationClassifier) :
    Replaying d classifier (t.arrive crypto s.shared d.request).seen
      (t.arrive crypto s.shared d.request).pc := by
  have hsent : t.seen.sent = none := by
    rw [Task.Told, hpc] at htold
    cases htold with
    | arrived hnothing => rw [hnothing]; rfl
  unfold Task.arrive
  rw [d.replayToken?, Option.bind_some]
  rcases hadmits with htoken | ⟨htoken, hauth⟩
  · rw [htoken]
    exact .admitted hsent rfl
  · rw [htoken]
    rw [ht, Option.bind_some] at hauth
    obtain ⟨auth, hauth⟩ := Option.isSome_iff_exists.mp hauth
    unfold Listening.admit
    simp only [hauth, auth.accepts_dispatch hcomposed]
    exact .answered hsent

/-- **The task of a replay over a run**: while it is live the classifier in force is the one it
was taken up under. -/
theorem Engine.replaying_run {crypto : Crypto} {d : Dispatch} {k : Nat}
    {classifier : DestinationClassifier} :
    ∀ {es : List Event} {s : Engine}, (engine crypto).run es = some s →
      Delivered crypto d k classifier es → ReplaysHonoured crypto es →
      ∃ t, s.tasks[k]? = some t ∧ t.origin = .client ∧ Replaying d classifier t.seen t.pc ∧
        (t.over = false → s.shared.destinationClassifier = classifier) := by
  refine Machine.run_induction (P := fun (es : List Event) (s : Engine) =>
    Delivered crypto d k classifier es → ReplaysHonoured crypto es →
      ∃ t, s.tasks[k]? = some t ∧ t.origin = .client ∧ Replaying d classifier t.seen t.pc ∧
        (t.over = false → s.shared.destinationClassifier = classifier)) ?_ ?_
  · rintro ⟨before, e, after, s, hnil, -⟩
    exact absurd hnil (by simp)
  · intro es s e s' hrun ih hstep hdelivered hhonoured
    have hstep : s.step crypto e = some s' := hstep
    have hreach := Machine.reachable_of_run es hrun
    have hunoccupied := unoccupied hreach
    rcases hdelivered.concat_cases hrun with ⟨hsent, htakes, hclassifier⟩ | hdelivered
    -- the step that takes the request up
    · have hadmits := hhonoured.last hrun d k hsent htakes
      obtain ⟨rfl, hpc⟩ := htakes
      obtain ⟨t, ht, hpc⟩ := Option.map_eq_some_iff.mp hpc
      have hmem := List.mem_of_getElem? ht
      have horigin : t.origin = .client := received hreach t hmem (by rw [Task.begun, hpc])
      have hlive : t.over = false := by rw [Task.over, hpc]
      have hforce := hunoccupied.inForce hstep hmem horigin hlive
      rw [step_arrived ht hpc] at hstep
      cases hstep
      refine ⟨t.arrive crypto s.shared d.request, ?_, horigin,
        Task.replaying_arrive ht hpc (told hreach t hmem) (Dispatch.composed hsent) hadmits _, ?_⟩
      · have hlt := (List.getElem?_eq_some_iff.mp ht).1
        simp [hlt]
      · intro _
        exact (congrArg Settings.destinationClassifier hforce).trans hclassifier
    -- a later step
    · obtain ⟨t, ht, horigin, hreplaying, hforce⟩ := ih hdelivered hhonoured.of_append
      have hmem := List.mem_of_getElem? ht
      obtain ⟨sec, p, hmoved, -, hparties⟩ := step_cases hstep
      obtain ⟨t', ht', hbecame⟩ := hmoved.became ht
      refine ⟨t', ?_, hbecame.origin.trans horigin,
        hbecame.replaying hforce (told hreach t hmem) hreplaying, ?_⟩
      · rw [hparties, Parties.log_tasks]
        exact ht'
      · intro hlive'
        have hlive : t.over = false := by
          cases hover : t.over with
          | false => rfl
          | true =>
              have hgone := hbecame.gone (Task.over_iff.mp hover)
              rw [Task.over_iff.mpr hgone] at hlive'
              cases hlive'
        have hsame := hunoccupied.inForce hstep hmem horigin hlive
        exact (congrArg Settings.destinationClassifier hsame).trans (hforce hlive)

/-! ## The result -/

/-- If task `k` has sent a request upstream, this was the replay of `d`, to a Development
destination under `classifier`; and its capture says so, as long as it is there. -/
structure Engine.KeepsReplay (crypto : Crypto) (s : Engine) (d : Dispatch) (k : Nat)
    (classifier : DestinationClassifier) : Prop where
  forwarded : ∀ t, s.tasks[k]? = some t → t.seen.sent.isSome = true →
    Forwarded d classifier t.seen
  captured : ∀ t x op todo, s.tasks[k]? = some t → t.seen.sent.isSome = true →
    t.pc = .serving x op todo → ∀ rest s', (engine crypto).runFrom s rest = some s' →
      ∀ c ∈ s'.shared.traffic, c.id = x.id →
        c.replayOf = some d.authorization.originId ∧ c.destinationClass = .development

/-- **A replay is not downgraded** in any run in which each finds its token, or a proxy that
asks for credentials: what is forwarded for it is forwarded as a replay. -/
theorem replay_is_not_downgraded {crypto : Crypto} {es : List Event} {s : Engine}
    (hrun : (engine crypto).run es = some s) (hhonoured : ReplaysHonoured crypto es) {d : Dispatch}
    {k : Nat} {classifier : DestinationClassifier} (hdelivered : Delivered crypto d k classifier es) :
    s.KeepsReplay crypto d k classifier := by
  have hreach := Machine.reachable_of_run es hrun
  obtain ⟨t, ht, horigin, hreplaying, -⟩ := Engine.replaying_run hrun hdelivered hhonoured
  have hmem := List.mem_of_getElem? ht
  constructor
  · intro t' ht' hsent
    obtain rfl := Option.some.inj (ht.symm.trans ht')
    exact hreplaying.forwarded (Engine.told hreach t hmem) hsent
  · intro t' x op todo ht' _ hpc rest s' hrest c hc hid
    obtain rfl := Option.some.inj (ht.symm.trans ht')
    have hconsistent := Engine.consistent hreach
    have hserves := hconsistent.served t hmem _ _ ⟨x, op, todo, hpc, rfl, rfl⟩
    rw [hpc] at hreplaying
    cases hreplaying with
    | serving hreplay hhost hclass hclassified hreplayed =>
        constructor
        · rw [Engine.replayOf_run hreach (hconsistent.fresh _ hserves)
            (Engine.marked hreach t hmem horigin x op todo hpc) hrest c hc hid, hreplay]
          rfl
        · have hlater := Engine.consistent (Engine.reachable_run hreach hrest)
          have hregistered := (Engine.registry_run hrest).subset hserves
          rw [← hclass]
          exact hlater.class_unique (hid ▸ hlater.captured c hc) hregistered

/-- A completed exchange, and the call that replays it up to the sending of its request. -/
def replaySent : List Event :=
  starting .default ++ [.accept] ++
    answers 0 (untilSent (plainGet localhost) ++
      [.upstream (some ⟨200, [], true, []⟩), .go, .go, .go, .go, .go, .go, .go]) ++
    [.replay 1 sampleReplayToken, .replaying 0 (.ok ())]

/-- What that call sends. -/
def sampleDispatch : Dispatch where
  authorization := ⟨1, none⟩
  template := ⟨"GET".toList, (plainGet localhost).uri, []⟩
  token := sampleReplayToken
  encoded := by decide +kernel

/-- The proxy accepts a connection and reads its request. -/
def arriving : List Event := [.accept, .task 1 (.request sampleDispatch.request)]

/-- The rest of what its task meets, up to sending the request upstream. -/
def sendingOn : List Event :=
  answers 1 [.go, .go, .go, .dialed (some [⟨.v4 [127, 0, 0, 1], 80⟩]) true true, .go]

theorem once_sends : (engine .unused).Once (fun _ s e => s.Sends sampleDispatch e) replaySent := by
  have hrun := (Option.some_get (show ((engine .unused).run (replaySent.dropLast)).isSome = true by
    decide +kernel)).symm
  exact ⟨replaySent.dropLast, .replaying 0 (.ok ()), [], _, rfl, hrun, 0, .ok (), rfl, rfl⟩

/-- A run that has sent the request takes it up, in task 1. -/
theorem delivered_sample {es : List Event} {s : Engine} {classifier : DestinationClassifier}
    (hrun : (engine .unused).run (replaySent ++ es ++ arriving) = some s)
    (hpc : (s.tasks[1]?).map Task.pc = some (.arrived sampleDispatch.request))
    (hclassifier : s.shared.destinationClassifier = classifier) (rest : List Event) :
    Delivered .unused sampleDispatch 1 classifier
      (replaySent ++ es ++ arriving ++ .task 1 .go :: rest) :=
  ⟨_, _, rest, s, rfl, hrun, (once_sends.append es).append arriving, ⟨rfl, hpc⟩, hclassifier⟩

/-- Only this authorization is ever carried, and a token that is presented is in the map. -/
def Engine.carriesOnly (authorization : ReplayAuthorization) (s : Engine) (e : Event) : Bool :=
  ((s.presents? e).all fun token => s.shared.token? token = some authorization) &&
    s.replays.all fun
      | .authorized carried _ _ => carried = authorization
      | _ => true

theorem replaysHonoured_of_carriesOnly {crypto : Crypto} (authorization : ReplayAuthorization)
    {es : List Event} (h : (engine crypto).Meets
      (fun s e => s.carriesOnly authorization e = true) (engine crypto).start es) :
    ReplaysHonoured crypto es := by
  intro before e after s hes hrun d k hsent htakes
  have hbefore : (engine crypto).Always
      (fun _ s e => s.carriesOnly authorization e = true) before :=
    (hes ▸ h.always).of_append
  have hcarried : d.authorization = authorization := by
    obtain ⟨_, e', _, u, -, -, ⟨j, result, -, hcall⟩, hguard⟩ := hsent.and_always hbefore
    have hall := List.all_eq_true.mp ((Bool.and_eq_true _ _ ▸ hguard).2) _
      (List.mem_of_getElem? hcall)
    exact of_decide_eq_true hall
  have hpresents : s.presents? e = some d.token := by
    obtain ⟨rfl, hpc⟩ := htakes
    simp only [Engine.presents?, hpc]
    exact d.replayToken?
  have hguard : s.carriesOnly authorization e = true := h.always before e after s hes hrun
  unfold Engine.carriesOnly at hguard
  rw [hpresents, Bool.and_eq_true, Option.all_some] at hguard
  exact .inl (hcarried ▸ of_decide_eq_true hguard.1)

theorem honoured_replay_is_forwarded :
    ∃ s, (engine .unused).run (replaySent ++ arriving ++ .task 1 .go :: sendingOn) = some s ∧
      (∃ t, s.tasks[1]? = some t ∧ t.seen.sent.isSome = true) ∧
      s.KeepsReplay .unused sampleDispatch 1 .default := by
  have harriving := (Option.some_get (show ((engine .unused).run
    (replaySent ++ [] ++ arriving)).isSome = true by decide +kernel)).symm
  have hrun := (Option.some_get (show ((engine .unused).run
    (replaySent ++ [] ++ arriving ++ .task 1 .go :: sendingOn)).isSome = true by decide +kernel)).symm
  refine ⟨_, hrun, ⟨_, rfl, rfl⟩, replay_is_not_downgraded hrun ?_
    (delivered_sample harriving rfl rfl sendingOn)⟩
  exact replaysHonoured_of_carriesOnly ⟨1, none⟩ (by decide +kernel)

/-- While the request is on its way everything is cleared, and the proxy restarted with the
host marked Production. -/
def clearedMeanwhile : List Event :=
  [.clear, .task 0 .drop, .stop, .shutdown, .drained, .joined] ++
    starting { ProxyConfig.default with productionHosts := ["localhost".toList] }

/-- Its token gone, the request is forwarded as any other, to a Production destination. -/
theorem cleared_replay_is_downgraded :
    ¬ ∀ (crypto : Crypto) (es : List Event) (s : Engine), (engine crypto).run es = some s →
      ∀ d k classifier, Delivered crypto d k classifier es →
        s.KeepsReplay crypto d k classifier := by
  intro hall
  have harriving := (Option.some_get (show ((engine .unused).run
    (replaySent ++ clearedMeanwhile ++ arriving)).isSome = true by decide +kernel)).symm
  have hrun := (Option.some_get (show ((engine .unused).run (replaySent ++ clearedMeanwhile ++
    arriving ++ .task 1 .go :: sendingOn)).isSome = true by decide +kernel)).symm
  have hkeeps := hall .unused _ _ hrun _ 1 _ (delivered_sample harriving rfl rfl sendingOn)
  have hnoted := (hkeeps.forwarded _ rfl rfl).noted
  cases hnoted

end SippinSoda
