import SippinSoda.Engine.Modification
import SippinSoda.Captured

/-!
# What the captures show

A capture takes something of a message at a few moments: when its exchange begins, when its tunnel
gets a route, when an inner request is let through, and when a response is ready. Each of them is
the step of one task, the forwarder of the exchange but for the first.

* **Shown** — what a capture shows of messages, and its bounds;
* **Moment** — where it is taken, and what it leaves;
* **shown_step** — what a step leaves of what a capture shows;
* **Sole** — the one task that may still change that.
-/

namespace SippinSoda

/-! ## What is shown -/

/-- The fields of a capture that tell of the request. -/
structure ShownRequest where
  kind : Kind
  method : Str
  target : Str
  requestHeaders : List (Str × Str)
  deriving DecidableEq

/-- The fields of a capture that tell of messages. -/
structure Shown extends ShownRequest where
  responseHeaders : List (Str × Str)
  deriving DecidableEq

def Capture.shown (c : Capture) : Shown :=
  ⟨⟨c.kind, c.method, c.target, c.requestHeaders⟩, c.responseHeaders⟩

/-- At most 48 headers, with names of at most 128 characters and values of at most 256. -/
def BoundedHeaders (headers : List (Str × Str)) : Prop :=
  headers.length ≤ 48 ∧ ∀ field ∈ headers, field.1.length ≤ 128 ∧ field.2.length ≤ 256

/-- The bounds of a capture; a target has an authority, a path and a note that there is a query. -/
structure Shown.Bounded (shown : Shown) : Prop where
  target : shown.target.length ≤ 256 + 1024 + 11
  requestHeaders : BoundedHeaders shown.requestHeaders
  responseHeaders : BoundedHeaders shown.responseHeaders

/-! ## Moments -/

/-- Where something of a message is taken into a capture. -/
inductive Moment where
  /-- `begin_exchange`. -/
  | begun (request : Request)
  /-- `establish`, when a route is there. -/
  | routed
  /-- `forward_intercepted_https`, in the tunnel to that authority. -/
  | intercepted (authority : Authority) (request : Request)
  /-- `forward_with_sender`, when it knows the response to return. -/
  | responded (http2 : Bool) (upstream : Upstream) (rule : Option ResponseRule)
      (decision : Option BreakpointDecision)
  deriving DecidableEq

/-- What `begin_exchange` shows of a request. -/
def Request.begun (request : Request) : ShownRequest where
  kind := if request.isConnect then .tunnel else .http
  method := request.method
  target := safeTarget request
  requestHeaders := safeHeaders request.headers

/-- What `forward_intercepted_https` shows of a request in the tunnel to `authority`. -/
def Request.intercepted (request : Request) (authority : Authority) : ShownRequest where
  kind := .https
  method := request.method
  target := interceptedTargetText authority request
  requestHeaders := safeHeaders request.headers

/-- The headers a change shows of a response. -/
def Change.responseHeaders : Change → List (Str × Str)
  | .replaced _ headers _ | .responded _ headers => headers
  | _ => []

/-- What a moment leaves. -/
def Moment.after (shown : Shown) : Moment → Shown
  | .begun request => ⟨request.begun, []⟩
  | .routed => { shown with kind := .tls }
  | .intercepted authority request => ⟨request.intercepted authority, []⟩
  | .responded http2 upstream rule decision =>
      { shown with
        responseHeaders :=
          ((((Draft.ofUpstream upstream).applyRule rule).decide decision).told http2).responseHeaders }

/-- What is left where there may be a moment. -/
def Shown.take (shown : Shown) (moment : Option Moment) : Shown := moment.elim shown (Moment.after shown)

/-- The task that moves in an event. -/
def Parties.mover? (p : Parties) : Event → Option Task
  | .task k _ => p.tasks[k]?
  | _ => none

/-- The moment that a change is, made by that task. -/
def Change.moment (mover : Option Task) : Change → Option Moment
  | .tls => some .routed
  | .intercepted _ _ _ => mover.bind fun t =>
      match t.pc with
      | .serving x (.intercepting authority) _ => some (.intercepted authority x.request)
      | _ => none
  | .replaced _ _ _ | .responded _ _ => mover.bind fun t =>
      match t.pc with
      | .serving _ (.shaping upstream _) _ =>
          some (.responded t.origin.http2 upstream t.seen.rule t.seen.decision)
      | _ => none
  | _ => none

/-- The moment of exchange `id` that an event is, if it is one. -/
def Engine.moment (crypto : Crypto) (id : Nat) (s : Engine) (e : Event) : Option Moment :=
  match s.section crypto e with
  | .begin request _ _ _ => if s.shared.nextId = id then some (.begun request) else none
  | .update id' change => if id' = id then change.moment (s.mover? e) else none
  | _ => none

/-! ## Bounds -/

theorem boundedHeaders_safeHeaders (headers : HeaderMap) : BoundedHeaders (safeHeaders headers) := by
  unfold safeHeaders
  constructor
  · rw [List.length_map]
    exact List.length_take_le 48 headers
  · intro field hfield
    obtain ⟨⟨name, value⟩, -, rfl⟩ := List.mem_map.mp hfield
    refine ⟨List.length_take_le 128 name, ?_⟩
    by_cases hname : shownHeaders.contains name = true
    · show (if _ then _ else _ : Str).length ≤ 256
      rw [if_pos hname]
      exact List.length_take_le 256 _
    · show (if _ then _ else _ : Str).length ≤ 256
      rw [if_neg hname]
      decide

theorem length_hiddenQuery (authority path : Str) (query : Option Str) :
    (hiddenQuery authority path query).length ≤ 256 + 1024 + 11 := by
  have hauthority : (clipped authority 256).length ≤ 256 := List.length_take_le 256 authority
  have hpath : (clipped path 1024).length ≤ 1024 := List.length_take_le 1024 path
  have hquery : (if query.isSome then "?[REDACTED]".toList else []).length ≤ 11 := by
    by_cases hsome : query.isSome = true
    · rw [if_pos hsome]
      decide
    · rw [if_neg hsome]
      exact Nat.zero_le 11
  unfold hiddenQuery
  rw [List.length_append, List.length_append]
  omega

theorem length_safeTarget (request : Request) : (safeTarget request).length ≤ 256 + 1024 + 11 := by
  unfold safeTarget
  dsimp only
  by_cases hconnect : request.isConnect = true
  · rw [if_pos hconnect]
    exact (List.length_take_le 256 _).trans (by omega)
  · rw [if_neg hconnect]
    exact length_hiddenQuery ..

theorem boundedHeaders_told (http2 : Bool) (draft : Draft) :
    BoundedHeaders (draft.told http2).responseHeaders := by
  unfold Draft.told
  split
  · exact boundedHeaders_safeHeaders _
  · exact boundedHeaders_safeHeaders _

theorem boundedHeaders_nil : BoundedHeaders [] :=
  ⟨Nat.zero_le 48, fun _ h => absurd h List.not_mem_nil⟩

theorem Request.bounded_begun (request : Request) : Shown.Bounded ⟨request.begun, []⟩ :=
  ⟨length_safeTarget request, boundedHeaders_safeHeaders _, boundedHeaders_nil⟩

theorem Moment.bounded_after {shown : Shown} (h : shown.Bounded) (moment : Moment) :
    (moment.after shown).Bounded := by
  cases moment with
  | begun request => exact request.bounded_begun
  | routed => exact ⟨h.target, h.requestHeaders, h.responseHeaders⟩
  | intercepted authority request =>
      exact ⟨length_hiddenQuery .., boundedHeaders_safeHeaders _, boundedHeaders_nil⟩
  | responded http2 upstream rule decision =>
      exact ⟨h.target, h.requestHeaders, boundedHeaders_told http2 _⟩

/-! ## Who takes -/

/-- A change that shows headers. -/
def Change.shows : Change → Bool
  | .intercepted _ _ _ | .replaced _ _ _ | .responded _ _ => true
  | _ => false

def Errand.shows : Errand → Bool
  | .change c => c.shows
  | _ => false

theorem shows_finish (x : Exchange) (error : Option String) :
    ∀ errand ∈ x.finish error, errand.shows = false := by
  simp [Exchange.finish, Errand.shows, Change.shows]

/-- An operation shows headers at once, where it checks an inner target or shapes its response. -/
theorem change_of_step {proxy : SocketAddr} {tls : Option ProxyTlsInterception} {http2 : Bool}
    {s : State} {x : Handling} {seen : Seen} {op : Op} {a : Answer} {m : Move} {change : Change}
    (h : op.step proxy tls http2 s x seen a = some m) (hact : m.act = .change change) :
    (∃ authority, op = .intercepting authority ∧ change = .intercepted x.request.method
      (interceptedTargetText authority x.request) (safeHeaders x.request.headers)) ∨
    ∃ upstream draft, op = .shaping upstream draft ∧ change = draft.told http2 := by
  unfold Op.step at h
  split at h
  next htunnel =>
    cases h
    exfalso
    unfold tunnelStep at htunnel
    split at htunnel
    · split at htunnel
      · cases htunnel
        cases hact
      · split at htunnel <;> cases htunnel <;> cases hact
    · split at htunnel <;> cases htunnel <;> cases hact
    · simp only at htunnel
      split at htunnel <;> cases htunnel <;> cases hact
    · split at htunnel
      · cases htunnel
        cases hact
      · split at htunnel <;> cases htunnel <;> cases hact
    · split at htunnel <;> cases htunnel <;> cases hact
    · cases htunnel
      cases hact
    · split at htunnel <;> cases htunnel
      cases hact
    · cases htunnel
      cases hact
    · cases htunnel
  next =>
    split at h
    next hsend =>
      cases h
      unfold sendStep at hsend
      split at hsend
      · split at hsend <;> cases hsend <;> cases hact
      · simp only at hsend
        split at hsend
        · cases hsend
          cases hact
        · split at hsend <;> cases hsend <;> cases hact
      -- intercepting
      · split at hsend <;> cases hsend
        · cases hact
        · cases hact
          exact .inl ⟨_, rfl, rfl⟩
      · cases hsend
        cases hact
      · cases hsend
        cases hact
      · split at hsend <;> cases hsend <;> cases hact
      · cases hsend
    next =>
      cases answered_of_step h with
      | shaped upstream draft _ c _ _ htold =>
          cases hact
          exact .inr ⟨upstream, draft, rfl, htold⟩
      | _ => cases hact

theorem Answered.shows_todo {http2 : Bool} {s : State} {x : Handling} {seen : Seen} {op : Op}
    {a : Answer} {m : Move} (h : Answered http2 s x seen op a m) :
    ∀ errand ∈ m.todo, errand.shows = false := by
  cases h with
  | looked authority upstream =>
      dsimp only
      split <;> simp [Errand.shows, Change.shows]
  | woken => simp [Errand.shows, Change.shows]
  | stored => exact shows_finish x.toExchange _
  | checked =>
      dsimp only
      split <;> simp [Errand.shows]
  | onward _ _ _ _ todo _ _ _ _ hplain hown =>
      intro errand herrand
      have hp := hplain errand herrand
      have ho := hown errand herrand
      cases errand with
      | change c =>
          cases c with
          | intercepted => cases ho
          | replaced => cases hp
          | responded => cases hp
          | _ => rfl
      | _ => rfl
  | _ => exact fun errand h => absurd h List.not_mem_nil

/-- It queues none of these changes. -/
theorem shows_todo_of_step {proxy : SocketAddr} {tls : Option ProxyTlsInterception} {http2 : Bool}
    {s : State} {x : Handling} {seen : Seen} {op : Op} {a : Answer} {m : Move}
    (h : op.step proxy tls http2 s x seen a = some m) :
    ∀ errand ∈ m.todo, errand.shows = false := by
  have hfinish := shows_finish x.toExchange
  have hrefuse : ∀ (seen : Seen) (error : ForwardError), ∀ errand ∈ (x.refuse seen error).todo,
      errand.shows = false := by
    simp [Handling.refuse, Exchange.finish, Errand.shows, Change.shows]
  unfold Op.step at h
  split at h
  next htunnel =>
    cases h
    unfold tunnelStep at htunnel
    split at htunnel
    · split at htunnel
      · cases htunnel
        exact hrefuse _ _
      · split at htunnel <;> cases htunnel <;> simp
    · split at htunnel <;> cases htunnel
      · exact hrefuse _ _
      · simp
      · simp
    · simp only at htunnel
      split at htunnel <;> cases htunnel
      · exact hrefuse _ _
      · split <;> simp [Errand.shows, Change.shows]
    · split at htunnel
      · cases htunnel
        exact hfinish _
      · split at htunnel <;> cases htunnel <;> simp
    · split at htunnel <;> cases htunnel
      · simp
      · exact hfinish _
    · cases htunnel
      exact hfinish _
    · split at htunnel <;> cases htunnel
      split <;> simp [Errand.shows, Change.shows]
    · cases htunnel
      exact hfinish _
    · cases htunnel
  next =>
    split at h
    next hsend =>
      cases h
      unfold sendStep at hsend
      split at hsend
      · split at hsend <;> cases hsend
        · exact hrefuse _ _
        · simp
      · simp only at hsend
        split at hsend
        · cases hsend
          exact hrefuse _ _
        · split at hsend <;> cases hsend
          · simp
          · exact hrefuse _ _
      · split at hsend <;> cases hsend
        · exact hrefuse _ _
        · simp [Errand.shows]
      · cases hsend
        simp
      · cases hsend
        dsimp only
        split_ifs <;> simp [Errand.shows, Change.shows]
      · split at hsend <;> cases hsend
        · exact hrefuse _ _
        · simp
      · cases hsend
    next => exact (answered_of_step h).shows_todo

/-- A task has no change queued that shows headers. -/
def Task.Discreet (t : Task) : Prop :=
  ∀ x op todo, t.pc = .serving x op todo → ∀ errand ∈ todo, errand.shows = false

theorem Task.Moved.discreet {s : State} {now k : Nat} {t t' : Task} {a : Answer} {sec : Section}
    (h : t.Moved s now k a sec t') (ht : t.Discreet) : t'.Discreet := by
  intro x op todo hpc'
  cases h with
  | errand hpc =>
      cases hpc'
      exact fun errand herrand => ht _ _ _ hpc errand (List.mem_cons_of_mem _ herrand)
  | drop => cases hpc'
  | deadline =>
      cases hpc'
      simp [Handling.refuse, Exchange.finish, Errand.shows, Change.shows]
  | asked _ hstep =>
      cases hpc'
      exact shows_todo_of_step hstep
  | answered _ hanswered =>
      cases hpc'
      exact hanswered.shows_todo
  | arrive => cases hpc'
  | admits => cases hpc'
  | unauthorized => cases hpc'
  | classify => cases hpc'
  | forbid => cases hpc'
  | begin =>
      cases hpc'
      exact fun errand herrand => absurd herrand List.not_mem_nil

theorem Engine.discreet {crypto : Crypto} {s : Engine} (h : (engine crypto).Reachable s) :
    ∀ t ∈ s.tasks, t.Discreet := by
  have hstart : ∀ t ∈ Engine.default.tasks, t.Discreet := fun t ht => absurd ht List.not_mem_nil
  refine Machine.Reach.invariant (I := fun s => ∀ t ∈ s.tasks, t.Discreet) hstart ?_ h
  intro s s' e ih _ hstep t' ht'
  obtain ⟨sec, p, hmoved, -, hparties⟩ := Engine.step_cases hstep
  rw [hparties, Parties.log_tasks] at ht'
  obtain ⟨i, hi⟩ := List.getElem?_of_mem ht'
  rcases hmoved.came hi with ⟨t, ht, hbecame⟩ | ⟨-, harrives⟩
  · have hold := ih t (List.mem_of_getElem? ht)
    cases hbecame with
    | stays => exact hold
    | moves _ hm => exact hm.discreet hold
    | polls => exact hold
    | hands =>
        intro x op todo hpc' errand herrand
        cases hpc'
        cases herrand
    | receives _ hreceive =>
        intro x op todo hpc' errand herrand
        unfold Task.receive at hreceive
        split at hreceive <;> cases hreceive
        cases hpc'
        cases herrand
  · intro x op todo hpc' errand herrand
    cases harrives <;> cases hpc' <;> cases herrand

/-- **A change that shows headers is made by the task whose message they are of.** -/
theorem Task.Moved.shows {s : State} {now k id : Nat} {t t' : Task} {a : Answer} {change : Change}
    (h : t.Moved s now k a (.update id change) t') (ht : t.Discreet) (hchange : change.shows = true) :
    (∃ x authority, t.pc = .serving x (.intercepting authority) [] ∧
      change = .intercepted x.request.method (interceptedTargetText authority x.request)
        (safeHeaders x.request.headers)) ∨
    ∃ x upstream draft, t.pc = .serving x (.shaping upstream draft) [] ∧
      change = draft.told t.origin.http2 := by
  generalize hsec : Section.update id change = sec at h
  have hact {act : Act} {x : Handling} (heq : Section.update id change = act.section k x.id) :
      act = .change change := by
    cases act <;> cases heq
    rfl
  cases h with
  | errand hpc =>
      rename_i x op errand todo
      have hno := ht _ _ _ hpc errand List.mem_cons_self
      cases errand with
      | change c =>
          cases hsec
          exact absurd (hchange.symm.trans hno) nofun
      | announce => cases hsec
      | removeBody => cases hsec
  | drop => cases hsec
  | deadline => cases hsec
  | asked hpc hstep =>
      rcases change_of_step hstep (hact hsec) with ⟨authority, rfl, heq⟩ | ⟨upstream, draft, rfl, heq⟩
      · exact .inl ⟨_, authority, hpc, heq⟩
      · exact .inr ⟨_, upstream, draft, hpc, heq⟩
  | answered hpc hanswered =>
      have hchange' := hact hsec
      cases hanswered with
      | shaped upstream draft _ c _ _ htold =>
          cases hchange'
          exact .inr ⟨_, upstream, draft, hpc, htold⟩
      | _ => cases hchange'
  | arrive => cases hsec
  | admits _ _ hor =>
      rcases hor with rfl | ⟨token, rfl⟩
      · cases hsec
      · cases hsec
  | unauthorized _ hor =>
      rcases hor with rfl | ⟨token, rfl⟩
      · cases hsec
      · cases hsec
  | classify => cases hsec
  | forbid => cases hsec
  | begin => cases hsec

/-! ## What a step leaves shown -/

theorem Capture.shown_apply_of_not {c : Capture} {now : Nat} {change : Change}
    (hshows : change.shows = false) (htls : change ≠ .tls) : (c.apply now change).shown = c.shown := by
  cases change with
  | tls => exact absurd rfl htls
  | intercepted => cases hshows
  | replaced => cases hshows
  | responded => cases hshows
  | finish started error =>
      show (if c.phase ≠ .pending then c else _).shown = _
      by_cases hphase : c.phase ≠ .pending
      · rw [if_pos hphase]
      · rw [if_neg hphase]
        rfl
  | _ => rfl

theorem Engine.moment_of_update {crypto : Crypto} {s : Engine} {e : Event} {id : Nat} {change : Change}
    (h : s.section crypto e = .update id change) :
    s.moment crypto id e = change.moment (s.mover? e) := by
  unfold Engine.moment
  rw [h]
  exact if_pos rfl

theorem Engine.moment_of_others {crypto : Crypto} {s : Engine} {e : Event} {sec : Section}
    (h : s.section crypto e = sec) (hbegins : sec.begins = none)
    (hupdate : ∀ id change, sec ≠ .update id change) (id : Nat) : s.moment crypto id e = none := by
  unfold Engine.moment
  rw [h]
  cases sec with
  | begin => cases hbegins
  | update id' change => exact absurd rfl (hupdate id' change)
  | _ => rfl

/-- **A change of a capture leaves what its moment leaves.** -/
theorem Engine.shown_of_update {crypto : Crypto} {s : Engine} (hr : (engine crypto).Reachable s)
    {e : Event} {p : Parties} {id : Nat} {change : Change}
    (hsec : s.section crypto e = .update id change) (hmoved : s.Moved e (.update id change) p)
    (c : Capture) (now : Nat) :
    (c.apply now change).shown = c.shown.take (s.moment crypto id e) := by
  rw [Engine.moment_of_update hsec]
  by_cases hshows : change.shows = true
  · have hown : change.own = true := by
      cases change <;> first | rfl | cases hshows
    obtain ⟨k, a, t, t', rfl, ht, -, hm, -⟩ := hmoved.own (Engine.owned hr) hown
    have hmem := List.mem_of_getElem? ht
    have hmover : s.mover? (.task k a) = some t := ht
    rw [hmover]
    rcases hm.shows (Engine.discreet hr t hmem) hshows with
      ⟨x, authority, hpc, rfl⟩ | ⟨x, upstream, draft, hpc, rfl⟩
    · unfold Change.moment
      dsimp only [Option.bind_some]
      rw [hpc]
      rfl
    · obtain ⟨-, -, hdrafted⟩ := (Engine.told hr t hmem).of_serving hpc
      cases hdrafted with
      | early hearly => cases hearly
      | returning hresponse => cases hresponse
      | shaping hupstream hlooked =>
          unfold Draft.told
          split
          next replacement hreplacement =>
            unfold Change.moment
            dsimp only [Option.bind_some]
            rw [hpc]
            show _ = Shown.mk _ _
            unfold Draft.told
            rw [hreplacement]
            rfl
          next hreplacement =>
            unfold Change.moment
            dsimp only [Option.bind_some]
            rw [hpc]
            show _ = Shown.mk _ _
            unfold Draft.told
            rw [hreplacement]
            rfl
  · rw [Bool.not_eq_true] at hshows
    by_cases htls : change = .tls
    · rw [htls]
      rfl
    · rw [Capture.shown_apply_of_not hshows htls]
      cases change with
      | tls => exact absurd rfl htls
      | intercepted => cases hshows
      | replaced => cases hshows
      | responded => cases hshows
      | _ => rfl

/-- **A step leaves of what a capture shows what its moment leaves.** -/
theorem Engine.shown_step {crypto : Crypto} {s s' : Engine} (hr : (engine crypto).Reachable s)
    {e : Event} (hstep : (engine crypto).step s e = some s') {c' : Capture}
    (hc' : c' ∈ s'.shared.traffic) :
    (∃ c ∈ s.shared.traffic, c.id = c'.id ∧ c'.shown = c.shown.take (s.moment crypto c'.id e)) ∨
    ∃ request, s.moment crypto c'.id e = some (.begun request) ∧ c'.id = s.shared.nextId ∧
      c'.shown = ⟨request.begun, []⟩ := by
  obtain ⟨p, hmoved, hshared, -⟩ := Engine.step_section hstep
  have hconsistent := Engine.consistent hr
  rw [hshared] at hc'
  rcases hconsistent.ordered.mem_apply hc' with ⟨hmem, hupdate, -⟩ | ⟨c, hmem, change, hsec, rfl⟩ |
    ⟨c, hmem, task, status, hsec, rfl⟩ |
    ⟨request, destination, clientProfileId, replayOf, hsec, rfl⟩
  -- the section does not touch it
  · refine .inl ⟨c', hmem, rfl, ?_⟩
    have hold : c'.id < s.shared.nextId := hconsistent.fresh _ (hconsistent.captured c' hmem)
    have hnone : s.moment crypto c'.id e = none := by
      unfold Engine.moment
      cases hsec : s.section crypto e with
      | begin request destination clientProfileId replayOf =>
          exact if_neg (by omega)
      | update id' change =>
          refine if_neg fun heq => hupdate change ?_
          rw [hsec, heq]
      | _ => rfl
    rw [hnone]
    rfl
  -- it changes it
  · rw [hsec] at hmoved
    refine .inl ⟨c, hmem, (c.apply_id s.clock change).symm, ?_⟩
    rw [Engine.shown_of_update hr hsec hmoved c s.clock, c.apply_id]
  -- it pauses it
  · refine .inl ⟨c, hmem, rfl, ?_⟩
    have hnone : s.moment crypto c.id e = none := by
      unfold Engine.moment
      rw [hsec]
    show c.shown = c.shown.take (s.moment crypto c.id e)
    rw [hnone]
    rfl
  -- it begins its exchange
  · refine .inr ⟨request, ?_, rfl, rfl⟩
    unfold Engine.moment
    rw [hsec]
    exact if_pos rfl

/-- **Every capture is bounded.** -/
theorem Engine.bounded {crypto : Crypto} {s : Engine} (h : (engine crypto).Reachable s) :
    ∀ c ∈ s.shared.traffic, c.shown.Bounded := by
  refine h.invariant_along (I := fun s : Engine => ∀ c ∈ s.shared.traffic, c.shown.Bounded) ?_ ?_
  · intro c hc
    cases hc
  · intro s s' e hr ih _ hstep c' hc'
    rcases Engine.shown_step hr hstep hc' with ⟨c, hc, -, heq⟩ | ⟨request, -, -, heq⟩
    · rw [heq]
      cases s.moment crypto c'.id e with
      | none => exact ih c hc
      | some moment => exact moment.bounded_after (ih c hc)
    · rw [heq]
      exact request.bounded_begun

/-! ## The task that may change it -/

/-- After the beginning of an exchange its moments are steps of its forwarder. -/
theorem Engine.moment_mover {crypto : Crypto} {s s' : Engine} (hr : (engine crypto).Reachable s)
    {e : Event} (hstep : (engine crypto).step s e = some s') {id : Nat} {moment : Moment}
    (hold : id < s.shared.nextId) (h : s.moment crypto id e = some moment) :
    ∃ k a t, e = .task k a ∧ s.tasks[k]? = some t ∧ t.forwards? = some id := by
  obtain ⟨p, hmoved, -, -⟩ := Engine.step_section hstep
  unfold Engine.moment at h
  split at h
  · split at h
    next hnext =>
      rw [hnext] at hold
      exact absurd hold (Nat.lt_irrefl id)
    next => cases h
  next id' change hsec =>
    split at h
    next hid =>
      have hown : change.own = true := by
        cases change <;> first | rfl | cases h
      rw [hsec, hid] at hmoved
      obtain ⟨k, a, t, -, he, ht, -, -, hforwards⟩ := hmoved.own (Engine.owned hr) hown
      exact ⟨k, a, t, he, ht, hforwards⟩
    next => cases h
  next => cases h

/-- No task but that one forwards the exchange. -/
def Engine.Sole (s : Engine) (id w : Nat) : Prop :=
  ∀ (i : Nat) (t : Task), s.tasks[i]? = some t → t.forwards? = some id → i = w

/-- This stays so, as long as it does not hand it to a request in its tunnel. -/
theorem Engine.Sole.step {crypto : Crypto} {s s' : Engine} {e : Event} {id w : Nat}
    (h : s.Sole id w) (hold : id < s.shared.nextId) (hstep : (engine crypto).step s e = some s')
    (hkeeps : ∀ request, e ≠ .inner w request) : s'.Sole id w := by
  obtain ⟨sec, p, hmoved, -, hparties⟩ := Engine.step_cases hstep
  intro i t' ht' hforwards
  rw [hparties, Parties.log_tasks] at ht'
  have hnext : id ≠ s.shared.nextId := Nat.ne_of_lt hold
  rcases hmoved.came ht' with ⟨t, ht, hbecame⟩ | ⟨-, harrives⟩
  · refine h i t ht ?_
    cases hbecame with
    | stays => exact hforwards
    | moves _ hm => exact (hm.at Op.initial_hands hforwards).resolve_right hnext
    | polls => exact hforwards
    | hands hpc => cases hforwards
    | receives _ hreceive => exact Task.at_receive Op.initial_hands hreceive hforwards
  · cases harrives with
    | connection => cases hforwards
    | @innerFirst k request t x authority route http2 ht hpc =>
        have hid : x.id = id := Option.some.inj hforwards
        have htunnel : t.forwards? = some id :=
          Task.at?_eq_some.mpr ⟨x, _, [], hpc, rfl, hid⟩
        obtain rfl := h k t ht htunnel
        exact absurd rfl (hkeeps request)
    | innerNext ht hpc => exact absurd (Option.some.inj hforwards).symm hnext

/-- What others do is no moment of the exchange. -/
theorem Engine.Sole.moment {crypto : Crypto} {s s' : Engine} {e : Event} {id w : Nat}
    (h : s.Sole id w) (hr : (engine crypto).Reachable s) (hold : id < s.shared.nextId)
    (hstep : (engine crypto).step s e = some s') (hother : ∀ a, e ≠ .task w a) :
    s.moment crypto id e = none := by
  cases hmoment : s.moment crypto id e with
  | none => rfl
  | some moment =>
      obtain ⟨k, a, t, rfl, ht, hforwards⟩ := Engine.moment_mover hr hstep hold hmoment
      obtain rfl := h k t ht hforwards
      exact absurd rfl (hother a)

end SippinSoda
