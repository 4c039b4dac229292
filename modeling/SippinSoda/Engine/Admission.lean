import SippinSoda.Engine.Lifecycle
import SippinSoda.Clients

/-!
# Who is admitted

`handle` admits a request by a replay token or by its client's credentials, before anything
is captured. The tokens are a map that four kinds of sections write; what a run has issued
and not spent since is what the map holds.

* **tokens** — what a section does to one token;
* **Issues**, **Honours**, **Returns** — the steps that write the map, as events;
* **Vouched** — every authorization is for a capture that was there, with its profile;
* **only_the_client_is_admitted** — admission over every run.
-/

namespace SippinSoda

/-! ## The token map -/

/-- The token a request carries. -/
def Request.replayToken? (request : Request) : Option Str :=
  (request.headers.get internalReplayHeader).bind HeaderValue.toStr

/-- What the map has under a token. -/
def State.token? (s : State) (token : Str) : Option ReplayAuthorization :=
  (s.replayTokens.find? (·.1 = token)).map Prod.snd

/-- What a section leaves under a token. -/
def Section.onToken (token : Str) (old : Option ReplayAuthorization) :
    Section → Option ReplayAuthorization
  | .issueToken issued authorization => if issued = token then some authorization else old
  | .removeToken removed => if removed = token then none else old
  | .clear => none
  | _ => old

theorem find?_without {α β : Type} [DecidableEq α] (map : List (α × β)) (removed key : α) :
    (without map removed).find? (·.1 = key) =
      if removed = key then none else map.find? (·.1 = key) := by
  rw [without, List.find?_filter]
  by_cases h : removed = key
  · rw [if_pos h, List.find?_eq_none]
    intro entry _
    simp [h]
  · rw [if_neg h]
    apply congrArg (List.find? · map)
    funext entry
    by_cases hentry : entry.1 = key
    · simp [hentry, Ne.symm h]
    · simp [hentry]

theorem State.evict_replayTokens (s : State) : s.evict.replayTokens = s.replayTokens := by
  rw [State.evict]
  split <;> rfl

theorem State.evictMany_replayTokens (n : Nat) :
    ∀ s : State, (s.evictMany n).replayTokens = s.replayTokens := by
  induction n with
  | zero => exact fun s => rfl
  | succ n ih => exact fun s => by rw [State.evictMany, ih, evict_replayTokens]

theorem State.makeRoom_replayTokens (s : State) : s.makeRoom.replayTokens = s.replayTokens := by
  rw [State.makeRoom]
  split
  · exact s.evict_replayTokens
  · rfl

/-- Every section writes the map as `onToken` says. -/
theorem State.token?_apply (s : State) (now : Nat) (sec : Section) (token : Str) :
    (s.apply now sec).token? token = sec.onToken token (s.token? token) := by
  cases sec with
  | begin request destination clientProfileId replayOf =>
      exact congrArg (fun map => Option.map Prod.snd (List.find? (·.1 = token) map))
        s.makeRoom_replayTokens
  | start settings address =>
      exact congrArg (fun map => Option.map Prod.snd (List.find? (·.1 = token) map))
        (State.evictMany_replayTokens _ (s.configured settings))
  | issueToken issued authorization =>
      show Option.map Prod.snd (List.find? _ (_ :: _)) = if issued = token then _ else _
      by_cases h : issued = token
      · rw [List.find?_cons_of_pos (by simpa using h), if_pos h]
        rfl
      · rw [List.find?_cons_of_neg (by simpa using h), find?_without, if_neg h, if_neg h]
        rfl
  | removeToken removed =>
      show Option.map Prod.snd (List.find? _ (without _ _)) = if removed = token then _ else _
      rw [find?_without]
      by_cases h : removed = token
      · rw [if_pos h, if_pos h]
        rfl
      · rw [if_neg h, if_neg h]
        rfl
  | _ => rfl

/-- Removing a token that is not there changes nothing. -/
theorem State.apply_removeToken {s : State} {token : Str} (h : s.token? token = none)
    (now : Nat) : s.apply now (.removeToken token) = s := by
  have hnone : ∀ entry ∈ s.replayTokens, entry.1 ≠ token := by
    intro entry hentry
    have h := List.find?_eq_none.mp (Option.map_eq_none_iff.mp h) entry hentry
    simpa using h
  have hsame : without s.replayTokens token = s.replayTokens :=
    List.filter_eq_self.mpr fun entry hentry => by simpa using hnone entry hentry
  show { s with replayTokens := without s.replayTokens token } = s
  rw [hsame]

/-! ## The steps that write it -/

/-- The token of a request that its task takes up. -/
def Engine.presents? (s : Engine) : Event → Option Str
  | .task k .go =>
      match (s.tasks[k]?).map Task.pc with
      | some (.arrived request) => request.replayToken?
      | _ => none
  | _ => none

/-- The step admits a request by its token. -/
def Engine.Honours (s : Engine) (e : Event) (token : Str) : Prop :=
  s.presents? e = some token ∧ (s.shared.token? token).isSome = true

/-- The step is the one of a `replay` call that puts its token in the map. -/
def Engine.Issues (s : Engine) (e : Event) (token : Str) : Prop :=
  ∃ k result authorization template, e = .replaying k result ∧
    s.replays[k]? = some (.authorized authorization template token)

/-- The step is the one of a `replay` call that takes its token out and returns. -/
def Engine.Returns (s : Engine) (e : Event) (token : Str) : Prop :=
  ∃ k result authorization template, e = .replaying k result ∧
    s.replays[k]? = some (.waiting authorization template token)

/-- The step spends no token of that text: it honours none, is not the return of its call and
not a Clear. -/
def Engine.Spares (token : Str) (s : Engine) (e : Event) : Prop :=
  ¬ s.Honours e token ∧ ¬ s.Returns e token ∧ e ≠ .clear

/-! ## Arrival -/

/-- Where `handle` leaves a task after the token and the credentials. -/
def Listening.admit (crypto : Crypto) (listening : Listening) (request : Request)
    (replay : Option ReplayAuthorization) : Pc :=
  match replay, listening.clientAuth with
  | some replay, _ => .admitted request replay.clientProfileId (some replay)
  | none, some auth =>
      if auth.accepts crypto request.headers then .admitted request (some auth.profileId) none
      else .answered proxyAuthenticationRequired
  | none, none => .admitted request none none

/-- A request without the internal header. -/
def Request.unmarked (request : Request) : Request :=
  { request with headers := request.headers.remove internalReplayHeader }

/-- A task after its request has been taken up. -/
def Task.arrive (crypto : Crypto) (s : State) (t : Task) (request : Request) : Task :=
  let replay := request.replayToken?.bind s.token?
  { t with
    pc := t.listening.admit crypto request.unmarked replay
    seen := { t.seen with replayed := replay.isSome } }

theorem Task.step_arrived {crypto : Crypto} {s : State} {now k : Nat} {t : Task}
    {request : Request} (hpc : t.pc = .arrived request) :
    t.step crypto s now k .go =
      some ((request.replayToken?.map Section.removeToken).getD .nothing,
        t.arrive crypto s request) := by
  rw [Task.step, hpc]
  show Task.handleStep crypto s now t (.arrived request) .go = _
  unfold Task.handleStep Task.arrive Listening.admit Request.unmarked Request.replayToken?
    State.token?
  simp only
  generalize ((request.headers.get internalReplayHeader).bind HeaderValue.toStr).bind
    (fun token => (s.replayTokens.find? (·.1 = token)).map Prod.snd) = replay
  cases replay with
  | some replay => rfl
  | none =>
      cases t.listening.clientAuth with
      | none => rfl
      | some auth =>
          simp only
          split <;> rfl

/-- The section in which `handle` takes up a request. -/
def Request.arrival (request : Request) : Section :=
  (request.replayToken?.map Section.removeToken).getD .nothing

theorem Engine.move_arrived {crypto : Crypto} {s : Engine} {k : Nat} {t : Task} {request : Request}
    (ht : s.tasks[k]? = some t) (hpc : t.pc = .arrived request) :
    s.move crypto (.task k .go) = some (request.arrival,
      { s.toParties with tasks := s.tasks.set k (t.arrive crypto s.shared request) }) := by
  have hstep : s.taskStep crypto (.task k .go) = some (request.arrival,
      { s.toParties with tasks := s.tasks.set k (t.arrive crypto s.shared request) }) := by
    show (s.tasks[k]?).bind _ = _
    rw [ht]
    show (t.step crypto s.shared s.clock k .go).bind _ = _
    rw [Task.step_arrived hpc]
    rfl
  have hlife : s.lifecycle (.task k .go) = none := rfl
  simp only [Engine.move, hlife, hstep]

/-- The step of a request that arrives. -/
theorem Engine.step_arrived {crypto : Crypto} {s : Engine} {k : Nat} {t : Task} {request : Request}
    (ht : s.tasks[k]? = some t) (hpc : t.pc = .arrived request) :
    s.step crypto (.task k .go) = some { s with
      tasks := s.tasks.set k (t.arrive crypto s.shared request)
      shared := s.shared.apply s.clock request.arrival } := by
  rw [Engine.step, move_arrived ht hpc]
  unfold Request.arrival
  cases request.replayToken? <;> rfl

/-- Taking a request up takes its token out of the map. -/
theorem Engine.section_of_presents {crypto : Crypto} {s : Engine} {e : Event} {token : Str}
    (h : s.presents? e = some token) : s.section crypto e = .removeToken token := by
  unfold Engine.presents? at h
  split at h
  next k =>
    split at h
    next request hpc =>
      obtain ⟨t, ht, hpc⟩ := Option.map_eq_some_iff.mp hpc
      rw [section_of_move (move_arrived ht hpc), Request.arrival, h]
      rfl
    next => cases h
  next => cases h

theorem Engine.section_of_returns {crypto : Crypto} {s : Engine} {e : Event} {token : Str}
    (h : s.Returns e token) : s.section crypto e = .removeToken token := by
  obtain ⟨k, result, authorization, template, rfl, hcall⟩ := h
  refine section_of_move (p := { s.toParties with
    replays := s.replays.set k (.returned result) }) ?_
  show s.callStep (.replaying k result) = _
  show (s.replays[k]?).bind _ = _
  rw [hcall]
  rfl

theorem Engine.section_clear {crypto : Crypto} {s : Engine} : s.section crypto .clear = .clear :=
  rfl

/-- What a section puts in the map. -/
def Section.issues? : Section → Option (Str × ReplayAuthorization)
  | .issueToken token authorization => some (token, authorization)
  | _ => none

theorem Errand.section_issues (id : Nat) (errand : Errand) :
    (errand.section id).issues? = none := by
  cases errand <;> rfl

theorem Act.section_issues (k id : Nat) (act : Act) : (act.section k id).issues? = none := by
  cases act <;> rfl

/-- Only a `replay` call issues tokens. -/
theorem Engine.Moved.issues {s : Engine} {e : Event} {sec : Section} {p : Parties}
    (h : s.Moved e sec p) {token : Str} {authorization : ReplayAuthorization}
    (hsec : sec.issues? = some (token, authorization)) :
    ∃ k result template, e = .replaying k result ∧
      s.replays[k]? = some (.authorized authorization template token) := by
  cases h with
  | lifecycle hlife =>
      rcases (outlives_lifecycle hlife).sec with rfl | ⟨settings, address, rfl⟩ | rfl | rfl <;>
        cases hsec
  | task ht hallows hmoved =>
      cases hmoved with
      | errand hpc => rw [Errand.section_issues] at hsec; cases hsec
      | asked hpc hstep hasked => rw [Act.section_issues] at hsec; cases hsec
      | answered hpc hanswered => rw [Act.section_issues] at hsec; cases hsec
      | admits _ hpc hremoves =>
          rcases hremoves with rfl | ⟨token, rfl⟩ <;> cases hsec
      | unauthorized hpc hremoves =>
          rcases hremoves with rfl | ⟨token, rfl⟩ <;> cases hsec
      | _ => cases hsec
  | body ht hbody hstep _ =>
      unfold BodyParty.step at hstep
      split at hstep <;> cases hstep
      · rw [Errand.section_issues] at hsec
        cases hsec
      all_goals cases hsec
  | store hk hstep =>
      rcases StoreTask.step_insertRequest hstep with htame | rfl
      · unfold StoreTask.step at hstep
        simp only at hstep
        split at hstep <;> cases hstep
        · split at hsec <;> cases hsec
        all_goals cases hsec
      · cases hsec
  | exchange hx htodo =>
      rw [Errand.section_issues] at hsec
      cases hsec
  | issuesToken hcall =>
      cases hsec
      exact ⟨_, _, _, rfl, hcall⟩
  | _ => cases hsec

/-! ## What the map holds -/

/-- What is under a token after a step was put there by it, or was there and has not been spent. -/
theorem Engine.token?_of_step {crypto : Crypto} {s s' : Engine} {e : Event} {token : Str}
    {authorization : ReplayAuthorization} (hstep : s.step crypto e = some s')
    (h : s'.shared.token? token = some authorization) :
    (∃ k result template, e = .replaying k result ∧
      s.replays[k]? = some (.authorized authorization template token)) ∨
      s.shared.token? token = some authorization ∧ s.Spares token e := by
  obtain ⟨p, hmoved, hshared, -⟩ := step_section hstep
  rw [hshared, State.token?_apply] at h
  by_cases hissues : (s.section crypto e).issues? = some (token, authorization)
  · exact .inl (hmoved.issues hissues)
  · refine .inr ?_
    have hkept : s.shared.token? token = some authorization ∧
        s.section crypto e ≠ .removeToken token ∧ s.section crypto e ≠ .clear := by
      revert h hissues
      cases s.section crypto e with
      | issueToken issued authorization' =>
          intro h hissues
          by_cases heq : issued = token
          · simp only [Section.onToken, if_pos heq] at h
            cases h
            exact absurd (by rw [heq]; rfl) hissues
          · simp only [Section.onToken, if_neg heq] at h
            exact ⟨h, by simp, by simp⟩
      | removeToken removed =>
          intro h _
          by_cases heq : removed = token
          · simp only [Section.onToken, if_pos heq] at h
            cases h
          · simp only [Section.onToken, if_neg heq] at h
            exact ⟨h, by simpa using heq, by simp⟩
      | clear => intro h; cases h
      | _ => exact fun h _ => ⟨h, by simp, by simp⟩
    refine ⟨hkept.1, ?_, ?_, ?_⟩
    · intro hhonours
      exact hkept.2.1 (section_of_presents hhonours.1)
    · intro hreturns
      exact hkept.2.1 (section_of_returns hreturns)
    · rintro rfl
      exact hkept.2.2 section_clear

/-- **The token map over a run**: a token in it has been issued, and since then no request was
admitted by it, its call has not returned, and nothing was cleared. -/
theorem Engine.token?_since {crypto : Crypto} {token : Str} :
    ∀ {es : List Event} {s : Engine}, (engine crypto).run es = some s →
      (s.shared.token? token).isSome = true →
      (engine crypto).Since (fun s e => s.Issues e token) (Engine.Spares token) es := by
  refine Machine.run_induction
    (P := fun (es : List Event) (s : Engine) => (s.shared.token? token).isSome = true →
      (engine crypto).Since (fun s e => s.Issues e token) (Engine.Spares token) es) ?_ ?_
  · intro h
    cases h
  · intro es s e s' hrun ih hstep h
    obtain ⟨authorization, hheld⟩ := Option.isSome_iff_exists.mp h
    rcases Engine.token?_of_step hstep hheld with ⟨k, result, template, he, hcall⟩ | ⟨hold, hspares⟩
    · exact .now hrun ⟨k, result, authorization, template, he, hcall⟩ hstep
    · exact (ih (by rw [hold]; rfl)).concat hrun hspares

/-! ## Where authorizations come from -/

/-- The step is a `replay` call with that token, and the authorization has the id and the profile
of the capture the call is for. -/
def Engine.Vouches (s : Engine) (e : Event) (token : Str) (authorization : ReplayAuthorization) :
    Prop :=
  e = .replay authorization.originId token ∧ ∃ capture,
    s.shared.capture? authorization.originId = some capture ∧
    authorization.clientProfileId = capture.clientProfileId

/-- A call that is authorized finds the capture and the template. -/
theorem State.authorizeReplay_ok {s : State} {id : Nat} {authorization : ReplayAuthorization}
    {template : ReplayTemplate} (h : s.authorizeReplay id = .ok (authorization, template)) :
    (id, template) ∈ s.replayTemplates ∧ ∃ capture, s.capture? id = some capture ∧
      authorization = ⟨id, capture.clientProfileId⟩ := by
  have refused {message : String}
      {rest : PUnit → Except String (ReplayAuthorization × ReplayTemplate)} :
      (throw message >>= rest) ≠ .ok (authorization, template) := by
    intro h
    cases h
  simp only [State.authorizeReplay] at h
  split at h
  · exact absurd h refused
  split at h
  next capture hcapture =>
    obtain ⟨capture', hsame, h⟩ := Except.bind_eq_ok.mp h
    cases hsame
    split at h
    · exact absurd h refused
    split at h
    · exact absurd h refused
    split at h
    next entry found hfind =>
      obtain ⟨template', htemplate, h⟩ := Except.bind_eq_ok.mp h
      cases htemplate
      split at h
      · exact absurd h refused
      cases h
      have hid := List.find?_some hfind
      simp only [decide_eq_true_eq] at hid
      exact ⟨hid ▸ List.mem_of_find?_eq_some hfind, capture, hcapture, rfl⟩
    next => cases h
  next => cases h

/-- Every authorization, held by a call or under its token, was made by a `replay` call. -/
structure Engine.Vouched (crypto : Crypto) (es : List Event) (s : Engine) : Prop where
  calls : ∀ authorization template token, .authorized authorization template token ∈ s.replays →
    (engine crypto).Once (fun _ s e => s.Vouches e token authorization) es
  tokens : ∀ token authorization, s.shared.token? token = some authorization →
    (engine crypto).Once (fun _ s e => s.Vouches e token authorization) es

/-- A call that is authorized after a step was so before, or is with it. -/
theorem Engine.Moved.authorized_replays {s : Engine} {e : Event} {sec : Section} {p : Parties}
    (h : s.Moved e sec p) {authorization : ReplayAuthorization} {template : ReplayTemplate}
    {token : Str} (hcall : .authorized authorization template token ∈ p.replays) :
    .authorized authorization template token ∈ s.replays ∨ s.Vouches e token authorization := by
  cases h with
  | lifecycle hlife => exact .inl ((outlives_lifecycle hlife).replays ▸ hcall)
  | refusesReplay hrefused =>
      rcases List.mem_append.mp hcall with hcall | hcall
      · exact .inl hcall
      · cases List.mem_singleton.mp hcall
  | authorizesReplay hauthorized =>
      rcases List.mem_append.mp hcall with hcall | hcall
      · exact .inl hcall
      · cases List.mem_singleton.mp hcall
        obtain ⟨-, capture, hcapture, rfl⟩ := State.authorizeReplay_ok hauthorized
        exact .inr ⟨rfl, capture, hcapture, rfl⟩
  | issuesToken hheld =>
      rcases List.mem_or_eq_of_mem_set hcall with hcall | heq
      · exact .inl hcall
      · cases heq
  | returnsToken hheld =>
      rcases List.mem_or_eq_of_mem_set hcall with hcall | heq
      · exact .inl hcall
      · cases heq
  | _ => exact .inl hcall

theorem Engine.Vouched.step {crypto : Crypto} {es : List Event} {s s' : Engine} {e : Event}
    (hrun : (engine crypto).run es = some s) (h : s.Vouched crypto es)
    (hstep : (engine crypto).step s e = some s') : s'.Vouched crypto (es ++ [e]) := by
  obtain ⟨sec, p, hmoved, -, hparties⟩ := Engine.step_cases hstep
  refine ⟨fun authorization template token hcall => ?_, fun token authorization hheld => ?_⟩
  · have hcall : .authorized authorization template token ∈ p.replays := by
      rw [hparties] at hcall
      cases sec <;> exact hcall
    rcases hmoved.authorized_replays hcall with hold | hvouches
    · exact (h.calls authorization template token hold).append [e]
    · exact .now hrun hvouches
  · rcases Engine.token?_of_step hstep hheld with ⟨k, result, template, -, hcall⟩ | ⟨hold, -⟩
    · exact (h.calls authorization template token (List.mem_of_getElem? hcall)).append [e]
    · exact (h.tokens token authorization hold).append [e]

theorem Engine.vouched_of_run {crypto : Crypto} {es : List Event} {s : Engine}
    (hrun : (engine crypto).run es = some s) : s.Vouched crypto es := by
  refine Machine.run_induction (P := fun es s => Engine.Vouched crypto es s) ?_ ?_ hrun
  · refine ⟨fun authorization template token hcall => ?_, fun token authorization hheld => ?_⟩
    · cases hcall
    · cases hheld
  · exact fun hrun h hstep => h.step hrun hstep

/-! ## The result -/

/-- A task that has answered 407. -/
def Task.unauthorized (t : Task) : Task :=
  { t with pc := .answered proxyAuthenticationRequired, seen := { t.seen with replayed := false } }

/-- A task whose request was admitted by its credentials. -/
def Task.authenticated (t : Task) (request : Request) (profileId : Str) : Task :=
  { t with
    pc := .admitted request.unmarked (some profileId) none
    seen := { t.seen with replayed := false } }

/-- A task whose request was admitted by its token. -/
def Task.honoured (t : Task) (request : Request) (replay : ReplayAuthorization) : Task :=
  { t with
    pc := .admitted request.unmarked replay.clientProfileId (some replay)
    seen := { t.seen with replayed := true } }

/-- A task whose request was admitted by a token goes on as that replay: its host is classified,
and its exchange begins with the profile and as a replay of the capture, or it is answered 403. -/
def Task.GoesOn (crypto : Crypto) (k : Nat) (t : Task) (request : Request)
    (replay : ReplayAuthorization) : Prop :=
  ∀ s now, ∃ t', t.step crypto s now k .go = some (.nothing, t') ∧ ∀ s' now',
    t'.step crypto s' now' k .go =
      if s.destinationClassifier.classify request.uri.host = .development then
        some (.begin request .development replay.clientProfileId (some replay.originId),
          { t' with
            pc := .serving (s'.handling now' request replay.clientProfileId (some replay)
                .development s.destinationClassifier)
              (if request.isConnect then .establishing else .forwarding) [] })
      else some (.nothing, { t' with pc := .answered replayForbidden })

theorem Task.honoured_goesOn (crypto : Crypto) (k : Nat) (t : Task) (request : Request)
    (replay : ReplayAuthorization) :
    (t.honoured request replay).GoesOn crypto k request.unmarked replay := by
  intro s now
  refine ⟨_, rfl, fun s' now' => ?_⟩
  cases s.destinationClassifier.classify request.unmarked.uri.host with
  | development => rfl
  | production => rfl
  | unknown => rfl

/-- The internal header is not the one the credentials are in. -/
theorem presents_unmarked {crypto : Crypto} {request : Request} {profileId token : Str} :
    Presents crypto request.unmarked.headers profileId token ↔
      Presents crypto request.headers profileId token := by
  unfold Presents Request.unmarked
  rw [HeaderMap.get_remove_of_ne (by decide)]

/-- A task that has answered does nothing but end. -/
theorem Task.step_unauthorized {crypto : Crypto} {s : State} {now k : Nat} {t t' : Task}
    {a : Answer} {sec : Section} (h : t.unauthorized.step crypto s now k a = some (sec, t')) :
    sec = .nothing ∧ t'.pc = .gone := by
  change t.unauthorized.handleStep crypto s now (.answered proxyAuthenticationRequired) a =
    some (sec, t') at h
  cases a with
  | drop =>
      cases h
      exact ⟨rfl, rfl⟩
  | _ => cases h

/-- A step of a request without a token that counts: the shared state is left alone. -/
theorem Engine.step_arrived_unmarked {crypto : Crypto} {s : Engine} {k : Nat} {t : Task}
    {request : Request} (ht : s.tasks[k]? = some t) (hpc : t.pc = .arrived request)
    (htoken : request.replayToken?.bind s.shared.token? = none) :
    s.step crypto (.task k .go) =
      some { s with tasks := s.tasks.set k (t.arrive crypto s.shared request) } := by
  have hshared : s.shared.apply s.clock request.arrival = s.shared := by
    unfold Request.arrival
    cases hcarried : request.replayToken? with
    | none => rfl
    | some token =>
        rw [hcarried] at htoken
        exact State.apply_removeToken htoken _
  rw [step_arrived ht hpc, hshared]

/-- **Only the client is admitted.** In a run with its profile and token, a request that
carries no token of the map is admitted with the profile if its first `Proxy-Authorization`
holds the credentials of the client, and is otherwise answered 407 with everything else left as
it was; credentials as clients write them are among those. A request that carries a token of the
map is admitted by it, whatever its credentials, with the profile of the capture that the call with
this token is to replay. A token admits a request only if it was issued and since then no request
was admitted by it, its call has not returned and nothing was cleared. -/
theorem only_the_client_is_admitted {crypto : Crypto} {profileId token : Str}
    {auth : ProxyClientAuth} (hnew : ProxyClientAuth.new crypto profileId token = .ok auth)
    (hsha : crypto.SeparatesToken token) {es : List Event} {s : Engine}
    (hrun : (engine crypto).run es = some s) :
    (∀ k t request, s.tasks[k]? = some t → t.pc = .arrived request →
      t.listening.clientAuth = some auth → request.replayToken?.bind s.shared.token? = none →
      (¬ Presents crypto request.headers auth.profileId token →
        s.step crypto (.task k .go) = some { s with tasks := s.tasks.set k t.unauthorized } ∧
        ∀ state now a sec t', t.unauthorized.step crypto state now k a = some (sec, t') →
          sec = .nothing ∧ t'.pc = .gone) ∧
      (Presents crypto request.headers auth.profileId token →
        s.step crypto (.task k .go) =
          some { s with tasks := s.tasks.set k (t.authenticated request auth.profileId) })) ∧
    (∀ headers : HeaderMap, ∀ text, (∀ c ∈ text, Str.isWhitespace c = false) →
      crypto.base64Decode text = some (utf8 auth.profileId ++ 58 :: utf8 token) →
      (headers.get "proxy-authorization".toList).bind HeaderValue.toStr =
        some ("Basic ".toList ++ text) →
      Presents crypto headers auth.profileId token) ∧
    (∀ k t request spent replay, s.tasks[k]? = some t → t.pc = .arrived request →
      request.replayToken? = some spent → s.shared.token? spent = some replay →
      s.step crypto (.task k .go) = some { s with
        tasks := s.tasks.set k (t.honoured request replay)
        shared := s.shared.apply s.clock (.removeToken spent) } ∧
      (t.honoured request replay).GoesOn crypto k request.unmarked replay ∧
      (engine crypto).Once (fun _ s e => s.Vouches e spent replay) es) ∧
    ∀ e spent, s.Honours e spent →
      (engine crypto).Since (fun s e => s.Issues e spent) (Engine.Spares spent) es := by
  refine ⟨?_, ?_, ?_, ?_⟩
  · intro k t request ht hpc hauth htoken
    have hstep : s.step crypto (.task k .go) = _ := Engine.step_arrived_unmarked ht hpc htoken
    have haccepts := ProxyClientAuth.accepts_iff hnew hsha request.unmarked.headers
    rw [presents_unmarked] at haccepts
    constructor
    · intro hnone
      refine ⟨?_, fun state now a sec t' h => Task.step_unauthorized h⟩
      have hrefused : t.arrive crypto s.shared request = t.unauthorized := by
        unfold Task.arrive Listening.admit Task.unauthorized
        simp only [htoken, hauth, if_neg (mt haccepts.mp hnone)]
        rfl
      rw [hstep, hrefused]
    · intro hpresents
      have hadmitted : t.arrive crypto s.shared request = t.authenticated request auth.profileId := by
        unfold Task.arrive Listening.admit Task.authenticated
        simp only [htoken, hauth, if_pos (haccepts.mpr hpresents)]
        rfl
      rw [hstep, hadmitted]
  · intro headers text htext hdecode hvalue
    exact ⟨_, hvalue, basicCredentials_of_decode htext hdecode⟩
  · intro k t request spent replay ht hpc hcarried hheld
    refine ⟨?_, t.honoured_goesOn crypto k request replay,
      (Engine.vouched_of_run hrun).tokens spent replay hheld⟩
    have hadmitted : t.arrive crypto s.shared request = t.honoured request replay := by
      have hfound : request.replayToken?.bind s.shared.token? = some replay := by
        rw [hcarried, Option.bind_some, hheld]
      unfold Task.arrive Listening.admit Task.honoured
      rw [hfound]
      rfl
    have harrival : request.arrival = .removeToken spent := by
      unfold Request.arrival
      rw [hcarried]
      rfl
    rw [Engine.step_arrived ht hpc, hadmitted, harrival]
  · intro e spent hhonours
    exact Engine.token?_since hrun hhonours.2

/-- A run with client authentication. -/
def authenticating : ProxyConfig := { ProxyConfig.default with clientAuth := some sampleAuth }

/-- A request for that proxy, with the client's credentials. -/
def credentialedGet : Request :=
  { plainGet localhost with headers := [("proxy-authorization".toList, sampleCredentials)] }

/-- The client's request arrives. -/
def clientArrives : List Event :=
  starting authenticating ++ [.accept, .task 0 (.request credentialedGet)]

theorem client_is_admitted :
    Presents .sample credentialedGet.headers sampleAuth.profileId sampleToken ∧
    ∀ s, (engine .sample).run clientArrives = some s →
      (s.step .sample (.task 0 .go)).map (fun s => s.tasks.map Task.pc) =
        some [.admitted credentialedGet (some sampleAuth.profileId) none] := by
  have hrun := (Option.some_get
    (show ((engine .sample).run clientArrives).isSome = true by decide +kernel)).symm
  have hresult := only_the_client_is_admitted sampleAuth_new Crypto.sample_separates hrun
  have hblank : (sampleCredentials.drop 6).all (fun c => !Str.isWhitespace c) = true := by
    decide +kernel
  have hpresents := hresult.2.1 credentialedGet.headers (sampleCredentials.drop 6)
    (fun c hc => by simpa using List.all_eq_true.mp hblank c hc) (by decide +kernel)
    (by decide +kernel)
  refine ⟨hpresents, ?_⟩
  intro s hs
  obtain rfl := Option.some.inj (hs.symm.trans hrun)
  rw [(hresult.1 0 _ credentialedGet rfl rfl rfl rfl).2 hpresents]
  rfl

/-- A replay token: 24 bytes in Base64. -/
def sampleReplayToken : Str := "cmVwbGF5LXRva2VuLW9mLTI0LWJ5dGVz".toList

/-- A completed exchange is to be replayed when the proxy is restarted with client
authentication. -/
def replayedAcrossRestart : List Event :=
  starting .default ++ [.accept] ++
    answers 0 (untilSent (plainGet localhost) ++
      [.upstream (some ⟨200, [], true, []⟩), .go, .go, .go, .go, .go, .go, .go]) ++
    [.replay 1 sampleReplayToken, .replaying 0 (.ok ()), .task 0 .drop, .stop, .shutdown, .drained,
      .joined] ++
    starting authenticating

/-- The request with that token and the client's credentials. -/
def markedGet : Request :=
  { credentialedGet with
    headers := (internalReplayHeader, sampleReplayToken) :: credentialedGet.headers }

/-- A token counts before credentials: its request is admitted with the profile of the
exchange it replays. -/
theorem token_outranks_credentials :
    ¬ ∀ (crypto : Crypto) (profileId token : Str) (auth : ProxyClientAuth),
      ProxyClientAuth.new crypto profileId token = .ok auth → crypto.SeparatesToken token →
      ∀ es s, (engine crypto).run es = some s → ∀ k t request, s.tasks[k]? = some t →
      t.pc = .arrived request → t.listening.clientAuth = some auth →
      Presents crypto request.headers auth.profileId token →
      ∃ s' t' request' replay, s.step crypto (.task k .go) = some s' ∧ s'.tasks[k]? = some t' ∧
        t'.pc = .admitted request' (some auth.profileId) replay := by
  intro hall
  have hpresents : Presents .sample markedGet.headers sampleAuth.profileId sampleToken :=
    ⟨sampleCredentials, by decide +kernel, "Basic".toList, sampleCredentials.drop 6,
      by decide +kernel, by decide +kernel, by decide +kernel⟩
  have hrun := (Option.some_get (show ((engine .sample).run (replayedAcrossRestart ++
    [.accept, .task 1 (.request markedGet)])).isSome = true by decide +kernel)).symm
  obtain ⟨s', t', request', replay, hstep, ht', hpc⟩ := hall .sample _ sampleToken sampleAuth
    sampleAuth_new Crypto.sample_separates _ _ hrun 1 _ markedGet rfl rfl rfl hpresents
  have hprofile : (match t'.pc with
    | .admitted _ clientProfileId _ => clientProfileId
    | _ => none) = none := by
    cases hstep
    cases ht'
    rfl
  rw [hpc] at hprofile
  cases hprofile

end SippinSoda
