import SippinSoda.Engine.Connections
import SippinSoda.Engine.Production

/-!
# What a rule lookup depends on

The lookup of a response rule comes after the upstream's answer, and looks the class up in
the capture. A Development exchange whose capture has gone in the meantime gets no rule.

* **Carries** — what it means that a response carries a rule;
* **LookedUp** — the lookup as a step of the run, and the configuration its rules are from;
* **rule_is_carried_when_retained** — exactly when a response carries the first rule that
  matches.
-/

namespace SippinSoda

/-! ## Carrying a rule -/

/-- The bytes a client gets, given what the upstream sends. -/
def Response.content (response : Response) (upstream : Upstream) : List UInt8 :=
  match response.body with
  | .upstream => upstream.content
  | .full bytes => bytes

/-- The response has the status of the rule and, if the rule has a body, that body with its
media type; without a rule it is the upstream's. -/
def Response.Carries (response : Response) (upstream : Upstream) : Option ResponseRule → Prop
  | none => response = upstream.unmodified
  | some rule =>
      response.status = rule.status ∧ ∀ body, rule.body = some body →
        response.content upstream = body ∧
        HeaderMap.getAll response.headers "content-type".toList = rule.contentType.toList

/-- A replacement body comes with one media type. -/
theorem getAll_contentType_replacedHeaders (http2 : Bool) (headers : HeaderMap) (body : List UInt8)
    (contentType : Option HeaderValue) :
    HeaderMap.getAll (replacedHeaders http2 headers body contentType) "content-type".toList =
      [contentType.getD defaultContentType] := by
  unfold replacedHeaders
  split
  · exact HeaderMap.getAll_insert_self ..
  · rw [HeaderMap.getAll_insert_of_ne (by decide)]
    exact HeaderMap.getAll_insert_self ..

/-- The response made with a rule carries it, unless a decision modified it. -/
theorem shaped_carries (http2 : Bool) (upstream : Upstream) (rule : Option ResponseRule)
    {decision : Option BreakpointDecision}
    (hdecision : ∀ d, decision = some d → d.modifies = false) :
    (shaped http2 upstream rule decision).Carries upstream rule := by
  have hsame : shaped http2 upstream rule decision = shaped http2 upstream rule none := by
    cases decision with
    | none => rfl
    | some d =>
        have hd := hdecision d rfl
        rw [BreakpointDecision.modifies, Bool.or_eq_false_iff, Option.isSome_eq_false_iff,
          Option.isSome_eq_false_iff, Option.isNone_iff_eq_none, Option.isNone_iff_eq_none] at hd
        simp only [shaped, Draft.decide, hd.1, hd.2, Option.getD_none]
  rw [hsame]
  cases rule with
  | none => rfl
  | some rule =>
      obtain ⟨id, name, host, pathPrefix, method, status, body, contentType, hstatus, hbody, typed⟩ :=
        rule
      cases body with
      | none => exact ⟨rfl, nofun⟩
      | some body =>
          cases contentType with
          | none => cases typed
          | some value =>
              refine ⟨rfl, fun _ heq => ?_⟩
              cases heq
              exact ⟨rfl, getAll_contentType_replacedHeaders ..⟩

/-! ## The configuration at the lookup -/

/-- The last configuration that a `start` has published is this one. -/
def StartedLast (crypto : Crypto) (config : ProxyConfig) (es : List Event) : Prop :=
  (engine crypto).Since (fun s e => s.Publishes e config)
    (fun s e => ∀ other, ¬ s.Publishes e other) es

/-- Where there is a task, a `start` has published a configuration, and the settings of the last
are in force. -/
theorem startedLast_of_run {crypto : Crypto} {es : List Event} {s : Engine}
    (hrun : (engine crypto).run es = some s) : s.tasks ≠ [] →
      ∃ config settings, StartedLast crypto config es ∧ config.compile = .ok settings ∧
        s.shared.inForce = settings.inForce := by
  refine Machine.run_induction (m := engine crypto) (s := s)
    (P := fun es s => s.tasks ≠ [] → ∃ config settings, StartedLast crypto config es ∧
      config.compile = .ok settings ∧ s.shared.inForce = settings.inForce) ?_ ?_ hrun
  · intro hsome
    exact absurd rfl hsome
  · intro es s e s' hrun ih hstep hsome
    obtain ⟨sec, p, hmoved, hshared, hparties⟩ := Engine.step_cases hstep
    -- what was published last stays so, with its settings
    have hstays (hquiet : ∀ config, ¬ s.Publishes e config) (hsettings : sec.settings? = none)
        (h : ∃ config settings, StartedLast crypto config es ∧ config.compile = .ok settings ∧
          s.shared.inForce = settings.inForce) :
        ∃ config settings, StartedLast crypto config (es ++ [e]) ∧
          config.compile = .ok settings ∧ s'.shared.inForce = settings.inForce := by
      obtain ⟨config, settings, hstarted, hcompile, hforce⟩ := h
      refine ⟨config, settings, hstarted.concat hrun hquiet, hcompile, ?_⟩
      rw [hshared, State.apply_inForce, hsettings]
      exact hforce
    have htasks : s'.tasks = p.tasks := by
      rw [hparties, Parties.log_tasks]
    cases hmoved.turn with
    | @publish config settings address hbound =>
        have hcompile := (Engine.configured (Machine.reachable_of_run es hrun)).call
        rw [hbound] at hcompile
        refine ⟨config, settings, .now hrun ⟨rfl, settings, address, hbound⟩ hstep, hcompile, ?_⟩
        rw [hshared, State.apply_inForce]
        rfl
    | report =>
        refine hstays ?_ rfl (ih (htasks ▸ hsome))
        rintro config ⟨hstarting, -⟩
        cases hstarting
    | keep hsets hdrained hquiet hkept =>
        refine hstays hquiet ?_ ?_
        · cases sec <;> first | rfl | cases hsets
        by_cases hold : s.tasks = []
        · -- the first task is a connection, which a listener has taken
          obtain ⟨t', ht'⟩ := List.exists_mem_of_ne_nil _ (htasks ▸ hsome)
          obtain ⟨i, hi⟩ := List.mem_iff_getElem?.mp ht'
          rcases hmoved.came hi with ⟨t, ht, -⟩ | ⟨-, harrives⟩
          · rw [hold] at ht
            cases ht
          · cases harrives with
            | connection haccepting =>
                obtain ⟨config, -, hconfig, -⟩ :=
                  (advertised_of_run hrun).used _ (.inr (.inl haccepting))
                obtain ⟨settings, hcompile, hforce⟩ := (governed_of_run hrun).inForce config hconfig
                exact ⟨config, settings, hconfig.mono fun _ _ hquiet => hquiet.2, hcompile, hforce⟩
            | innerFirst hk =>
                rw [hold] at hk
                cases hk
            | innerNext hk =>
                rw [hold] at hk
                cases hk
        · exact ih hold

/-! ## The lookup in the run -/

/-- The event is the rule lookup of that exchange, for that host. -/
def Engine.LooksUp (s : Engine) (e : Event) (x : Handling) (host : Str) : Prop :=
  ∃ k t authority upstream, e = .task k .go ∧ s.tasks[k]? = some t ∧
    t.pc = .serving x (.answered authority upstream) [] ∧ host = ruleHost authority

/-- The lookup was made by a step of the run: for the host of the exchange it met the capture or
not, and the enabled rules of the configuration published last, in its order. -/
def LookedUp (crypto : Crypto) (es : List Event) (x : Handling) (lookup : Lookup) : Prop :=
  (engine crypto).Once (fun before s e => s.LooksUp e x lookup.host ∧
    (lookup.retained = true ↔ s.shared.Retained x.id) ∧
    ∃ config, StartedLast crypto config before ∧
      ResponseRule.compileAll config.responseRules = .ok lookup.rules ∧
      List.Forall₂ (fun config rule => ∃ ids, ResponseRule.compile ids config = .ok rule)
        (config.responseRules.filter (·.enabled)) lookup.rules) es

theorem lookup_tunnelStep {proxy : SocketAddr} {tls : Option ProxyTlsInterception} {x : Handling}
    {seen : Seen} {op : Op} {a : Answer} {m : Move}
    (h : tunnelStep proxy tls x seen op a = some m) : m.seen.lookup = seen.lookup := by
  unfold tunnelStep at h
  split at h
  all_goals try simp only at h
  all_goals repeat' split at h
  all_goals cases h
  all_goals rfl

theorem lookup_sendStep {proxy : SocketAddr} {http2 : Bool} {s : State} {x : Handling}
    {seen : Seen} {op : Op} {a : Answer} {m : Move}
    (h : sendStep proxy http2 s x seen op a = some m) : m.seen.lookup = seen.lookup := by
  unfold sendStep at h
  split at h
  all_goals try simp only at h
  all_goals repeat' split at h
  all_goals cases h
  all_goals rfl

/-- Before the upstream's answer no rule is looked up. -/
theorem lookup_asked {proxy : SocketAddr} {tls : Option ProxyTlsInterception} {http2 : Bool}
    {s : State} {x : Handling} {seen : Seen} {op : Op} {a : Answer} {m : Move}
    (h : op.step proxy tls http2 s x seen a = some m) (hasked : Asked seen op m) :
    m.seen.lookup = seen.lookup := by
  unfold Op.step at h
  split at h
  next htunnel =>
    cases h
    exact lookup_tunnelStep htunnel
  next =>
    split at h
    next hsend =>
      cases h
      exact lookup_sendStep hsend
    next =>
      cases answered_of_step h with
      | looked => cases hasked.early
      | _ => rfl

/-- What a task has looked up, it had looked up before, or has just now. -/
theorem Task.Moved.lookup {s : State} {now k : Nat} {t t' : Task} {a : Answer} {sec : Section}
    (h : t.Moved s now k a sec t') (htold : t.Told) {x : Handling} {op : Op} {todo : List Errand}
    {lookup : Lookup} (hpc : t'.pc = .serving x op todo) (hlookup : t'.seen.lookup = some lookup) :
    (∃ op todo, t.pc = .serving x op todo ∧ t.seen.lookup = some lookup) ∨
      ∃ authority upstream, a = .go ∧ t.pc = .serving x (.answered authority upstream) [] ∧
        lookup = ⟨(s.capture? x.id).isSome, s.responseRules, ruleHost authority⟩ := by
  cases h with
  | errand hbefore =>
      cases hpc
      exact .inl ⟨_, _, hbefore, hlookup⟩
  | drop => cases hpc
  | deadline hbefore =>
      cases hpc
      exact .inl ⟨_, _, hbefore, hlookup⟩
  | asked hbefore hstep hasked =>
      cases hpc
      exact .inl ⟨_, _, hbefore, (lookup_asked hstep hasked).symm.trans hlookup⟩
  | answered hbefore hanswered =>
      cases hpc
      cases hanswered with
      | looked authority upstream =>
          exact .inr ⟨authority, upstream, rfl, hbefore, by cases hlookup; rfl⟩
      | _ => exact .inl ⟨_, _, hbefore, hlookup⟩
  | arrive => cases hpc
  | admits => cases hpc
  | unauthorized => cases hpc
  | classify => cases hpc
  | forbid => cases hpc
  | begin hbefore =>
      -- nothing has been looked up before an exchange begins
      rw [Task.Told, hbefore] at htold
      cases htold with
      | classified hseen =>
          have hnone : t.seen.lookup = none := congrArg Seen.lookup hseen
          cases hnone.symm.trans hlookup

/-- In every run, what a task has looked up it has looked up in a step of the run. -/
theorem lookedUp_of_run {crypto : Crypto} {es : List Event} {s : Engine}
    (hrun : (engine crypto).run es = some s) : ∀ t ∈ s.tasks, ∀ x op todo lookup,
      t.pc = .serving x op todo → t.seen.lookup = some lookup → LookedUp crypto es x lookup := by
  refine Machine.run_induction (m := engine crypto) (s := s)
    (P := fun es s => ∀ t ∈ s.tasks, ∀ x op todo lookup, t.pc = .serving x op todo →
      t.seen.lookup = some lookup → LookedUp crypto es x lookup) ?_ ?_ hrun
  · intro t ht
    cases ht
  · intro es s e s' hrun ih hstep t' ht' x op todo lookup hpc hlookup
    obtain ⟨sec, p, hmoved, -, hparties⟩ := Engine.step_cases hstep
    rw [hparties, Parties.log_tasks] at ht'
    obtain ⟨i, hi⟩ := List.mem_iff_getElem?.mp ht'
    rcases hmoved.came hi with ⟨t, ht, hbecame⟩ | ⟨-, harrives⟩
    · have hmem := List.mem_of_getElem? ht
      have hbefore {op : Op} {todo : List Errand} (hpc : t.pc = .serving x op todo)
          (hlookup : t.seen.lookup = some lookup) : LookedUp crypto (es ++ [e]) x lookup :=
        (ih t hmem x op todo lookup hpc hlookup).append [e]
      cases hbecame with
      | stays => exact hbefore hpc hlookup
      | moves _ hm =>
          have htold := Engine.told (Machine.reachable_of_run es hrun) t hmem
          rcases hm.lookup htold hpc hlookup with ⟨op, todo, hpc, hlookup⟩ |
            ⟨authority, upstream, rfl, hanswered, rfl⟩
          · exact hbefore hpc hlookup
          · obtain ⟨config, settings, hstarted, hcompile, hforce⟩ :=
              startedLast_of_run hrun (List.ne_nil_of_mem hmem)
            have hrules : s.shared.responseRules = settings.responseRules :=
              congrArg Settings.responseRules hforce
            have hcompiled := config.compile_rules hcompile
            refine .now hrun ⟨⟨i, t, authority, upstream, rfl, ht, hanswered, rfl⟩, ?_, config, hstarted,
              hrules ▸ hcompiled, hrules ▸ ResponseRule.compileAll_order hcompiled⟩
            show (s.shared.capture? x.id).isSome = true ↔ _
            rw [State.capture?, List.find?_isSome]
            simp [State.Retained]
      | polls => exact hbefore hpc hlookup
      | hands hserving =>
          cases hpc
          exact hbefore hserving hlookup
      | receives _ hreceive =>
          rw [Task.receive] at hreceive
          split at hreceive
          next hpaused =>
            cases hreceive
            cases hpc
            exact hbefore hpaused hlookup
          next => cases hreceive
    · cases harrives with
      | connection => cases hpc
      | innerFirst => cases hlookup
      | innerNext => cases hlookup

/-! ## The result -/

/-- The rule a lookup finds for a Development exchange whose capture is there. -/
def Lookup.found (lookup : Lookup) (x : Handling) : Option ResponseRule :=
  lookup.rules.find? (·.matches lookup.host x.request.uri.path x.request.method)

/-- A task has returned the response of a Development exchange, to which no decision was
made that modifies it. -/
structure Task.Returns (t : Task) (x : Handling) (response : Response) : Prop where
  returned : ∃ todo, t.pc = .serving x (.returned response) todo
  development : x.destination = .development
  undecided : ∀ decision, t.seen.decision = some decision → decision.modifies = false

/-- **A response carries the first rule that matches exactly when** the capture was there at
the lookup, or the upstream's own response carries that rule (as it does when there is
none). The rules are those of the configuration that was published last when the lookup was made,
matched with the host that was connected to and the path and method of the request. -/
theorem rule_is_carried_when_retained {crypto : Crypto} {es : List Event} {s : Engine}
    (hrun : (engine crypto).run es = some s) {t : Task} (ht : t ∈ s.tasks) {x : Handling}
    {response : Response} (hreturns : t.Returns x response) :
    ∃ upstream lookup host, t.seen.upstream = some upstream ∧ t.seen.lookup = some lookup ∧
      t.seen.dialed = some host ∧
      lookup.host = Str.toAsciiLowercase (Str.trimEndMatches (· == '.') host) ∧
      LookedUp crypto es x lookup ∧
      (response.Carries upstream (lookup.found x) ↔
        lookup.retained = true ∨ upstream.unmodified.Carries upstream (lookup.found x)) := by
  obtain ⟨⟨todo, hpc⟩, hclass, hdecision⟩ := hreturns
  have h := Machine.reachable_of_run es hrun
  obtain ⟨-, hrouted, hdrafted⟩ := (Engine.told h t ht).of_serving hpc
  obtain ⟨host, hdialed⟩ := Option.isSome_iff_exists.mp (hrouted.connected rfl)
  cases hdrafted with
  | early hearly => cases hearly
  | returning hresponse hupstream hlooked =>
      rename_i upstream _
      obtain ⟨lookup, hlookup, -, hhost, hrule⟩ := hlooked
      refine ⟨upstream, lookup, host, hupstream, hlookup, hdialed, ?_,
        lookedUp_of_run hrun t ht x _ todo lookup hpc hlookup, ?_⟩
      · rw [hhost, hrouted.dialed host hdialed]
      · have heq : response = shaped t.origin.http2 upstream t.seen.rule t.seen.decision :=
          Option.some.inj hresponse
        have hcarries := shaped_carries t.origin.http2 upstream t.seen.rule hdecision
        rw [← heq] at hcarries
        by_cases hretained : lookup.retained = true
        · rw [if_pos ⟨hretained, hclass⟩] at hrule
          rw [hrule] at hcarries
          exact ⟨fun _ => .inl hretained, fun _ => hcarries⟩
        · rw [if_neg fun hboth => hretained hboth.1] at hrule
          rw [hrule] at hcarries
          have hunmodified : response = upstream.unmodified := hcarries
          rw [hunmodified]
          exact ⟨.inr, fun hor => hor.resolve_left hretained⟩

/-- A mocked response that has been stored and returned. -/
theorem mocked_response_carries_rule :
    ∃ s t x response upstream lookup, (engine .unused).run mockedAndStored = some s ∧
      t ∈ s.tasks ∧ t.Returns x response ∧ t.seen.upstream = some upstream ∧
      t.seen.lookup = some lookup ∧ response.Carries upstream (lookup.found x) := by
  have hreturns : ∃ s t x response, (engine .unused).run mockedAndStored = some s ∧
      t ∈ s.tasks ∧ t.Returns x response ∧ t.seen.lookup.map Lookup.retained = some true :=
    ⟨_, _, _, _, rfl, List.mem_cons_self, ⟨⟨_, rfl⟩, rfl, nofun⟩, rfl⟩
  obtain ⟨s, t, x, response, hrun, ht, hreturns, hretained⟩ := hreturns
  obtain ⟨upstream, lookup, host, hupstream, hlookup, -, -, -, hiff⟩ :=
    rule_is_carried_when_retained hrun ht hreturns
  rw [hlookup] at hretained
  exact ⟨s, t, x, response, upstream, lookup, hrun, ht, hreturns, hupstream, hlookup,
    hiff.mpr (.inl (Option.some.inj hretained))⟩

/-- The capture is cleared while the upstream is awaited. -/
def clearedWhileAwaited : List Event :=
  starting mocking ++ [.accept] ++ answers 0 (untilSent (plainGet localhost) ++ [.go]) ++ [.clear] ++
    answers 0 [.upstream (some ⟨200, [], false, []⟩), .go, .go, .go, .go, .recorded none, .go, .go, .go]

/-- After the clear the response comes back without the rule that matches it. -/
theorem cleared_exchange_is_not_mocked :
    (∃ s t x response upstream lookup rule, (engine .unused).run clearedWhileAwaited = some s ∧
      t ∈ s.tasks ∧ t.Returns x response ∧ t.seen.upstream = some upstream ∧
      t.seen.lookup = some lookup ∧ lookup.found x = some rule ∧ rule.status = 418 ∧
      response = ⟨200, [], .upstream⟩) ∧
    ¬ ∀ s, (engine .unused).Reachable s → ∀ t ∈ s.tasks, ∀ x response, t.Returns x response →
      ∀ upstream lookup, t.seen.upstream = some upstream → t.seen.lookup = some lookup →
        response.Carries upstream (lookup.found x) := by
  have hrun : ∃ s t x response upstream lookup rule,
      (engine .unused).run clearedWhileAwaited = some s ∧
      t ∈ s.tasks ∧ t.Returns x response ∧ t.seen.upstream = some upstream ∧
      t.seen.lookup = some lookup ∧ lookup.found x = some rule ∧ rule.status = 418 ∧
      response = ⟨200, [], .upstream⟩ :=
    ⟨_, _, _, _, _, _, _, rfl, List.mem_cons_self, ⟨⟨_, rfl⟩, rfl, nofun⟩, rfl, rfl, rfl, rfl, rfl⟩
  refine ⟨hrun, fun hall => ?_⟩
  obtain ⟨s, t, x, response, upstream, lookup, rule, hrun, ht, hreturns, hupstream, hlookup, hfound,
    hstatus, rfl⟩ := hrun
  have hcarries := hall s (Machine.reachable_of_run _ hrun) t ht x _ hreturns upstream lookup
    hupstream hlookup
  rw [hfound] at hcarries
  exact absurd (hcarries.1.trans hstatus) (by decide)

end SippinSoda
