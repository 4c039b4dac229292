import SippinSoda.Engine.Decisions
import SippinSoda.Engine.RuleLookup

/-!
# What becomes of a response, and what its capture tells

The engine makes a response with the first rule that matches and the decision that ends its
pause; the capture is told along the way.

* **Tale** — the fields of a capture that are about its response;
* **Tells** — what they are, by where the forwarder of the exchange stands;
* **response_is_modified** — the response that is returned, and its capture.
-/

namespace SippinSoda

/-! ## Tales -/

/-- The fields of a capture that tell how its response came about. -/
structure Tale where
  status : Option Nat
  responseHeaders : List (Str × Str)
  breakpointState : BreakpointState
  originalStatus : Option Nat
  responseRuleId : Option Str
  responseRuleName : Option Str
  deriving DecidableEq

def Capture.tale (c : Capture) : Tale where
  status := c.status
  responseHeaders := c.responseHeaders
  breakpointState := c.breakpointState
  originalStatus := c.originalStatus
  responseRuleId := c.responseRuleId
  responseRuleName := c.responseRuleName

namespace Tale

/-- What a change makes of a tale. -/
def apply (tale : Tale) : Change → Tale
  | .status status => { tale with status := some status }
  | .intercepted _ _ _ => { tale with status := none, responseHeaders := [] }
  | .ruled originalStatus ruleId ruleName =>
      { tale with
        originalStatus := some originalStatus
        responseRuleId := some ruleId, responseRuleName := some ruleName }
  | .resumed received => { tale with breakpointState := .after received }
  | .replaced status headers _ | .responded status headers =>
      { tale with status := some status, responseHeaders := headers }
  | _ => tale

def errand (tale : Tale) : Errand → Tale
  | .change change => tale.apply change
  | _ => tale

/-- The tale when the queued errands are done. -/
def settle (tale : Tale) (todo : List Errand) : Tale := todo.foldl errand tale

/-- Nothing has been told of the response yet. -/
structure Traceless (tale : Tale) : Prop where
  breakpointState : tale.breakpointState = .none
  originalStatus : tale.originalStatus = none
  ruleId : tale.responseRuleId = none
  ruleName : tale.responseRuleName = none

/-- The rule that was found is told of, and the upstream's status if it, or a pause, may change
it. -/
structure Ruled (tale : Tale) (seen : Seen) : Prop where
  retained : ∃ lookup, seen.lookup = some lookup ∧ lookup.retained = true
  ruleId : tale.responseRuleId = seen.rule.map (·.id)
  ruleName : tale.responseRuleName = seen.rule.map (·.name)
  originalStatus : tale.originalStatus =
    if seen.rule.isSome = true ∨ tale.breakpointState ≠ .none then seen.upstream.map (·.status)
    else none

theorem apply_of_others {tale : Tale} {change : Change} (h : change.own = false) :
    tale.apply change = tale := by
  cases change <;> first | rfl | cases h

theorem errand_of_others {tale : Tale} {errand : Errand} (h : errand.own = false) :
    tale.errand errand = tale := by
  cases errand with
  | change change => exact apply_of_others h
  | announce => rfl
  | removeBody => rfl

theorem Traceless.apply {tale : Tale} (h : tale.Traceless) {change : Change}
    (hplain : change.plain = true) : (tale.apply change).Traceless := by
  obtain ⟨hbreakpoint, horiginal, hid, hname⟩ := h
  cases change <;> first | exact ⟨hbreakpoint, horiginal, hid, hname⟩ | cases hplain

theorem Traceless.settle {todo : List Errand} :
    ∀ {tale : Tale}, tale.Traceless → (∀ errand ∈ todo, errand.plain = true) →
      (tale.settle todo).Traceless := by
  induction todo with
  | nil =>
      intro tale h _
      exact h
  | cons errand todo ih =>
      intro tale h hplain
      have hnext : (tale.errand errand).Traceless := by
        cases errand with
        | change change => exact h.apply (hplain _ List.mem_cons_self)
        | announce => exact h
        | removeBody => exact h
      exact ih hnext fun errand herrand => hplain errand (List.mem_cons_of_mem _ herrand)

end Tale

theorem Capture.tale_apply (c : Capture) (now : Nat) (change : Change) :
    (c.apply now change).tale = c.tale.apply change := by
  cases change with
  | finish started error =>
      unfold Capture.apply
      dsimp only
      split <;> rfl
  | _ => rfl

theorem Section.tale_errand (c : Capture) (now : Nat) (errand : Errand) :
    ((errand.section c.id).onCapture now c).tale = c.tale.errand errand := by
  cases errand with
  | change change =>
      show (Section.onCapture now c (.update c.id change)).tale = _
      rw [Section.onCapture_update]
      exact c.tale_apply now change
  | announce => rfl
  | removeBody => rfl

/-! ## What the forwarder has told -/

/-- The headers a capture shows: those of a replacement, or the upstream's own. -/
def Response.shownHeaders (response : Response) (upstream : Upstream) : HeaderMap :=
  match response.body with
  | .upstream => upstream.headers
  | .full _ => response.headers

/-- The tale of a capture, by where the forwarder of its exchange stands. -/
inductive Tells (seen : Seen) (tale : Tale) : Op → List Errand → Prop
  | early {op todo} : op.early = true → (tale.settle todo).Traceless → Tells seen tale op todo
  | answered {authority upstream todo} : (tale.settle todo).Traceless →
      Tells seen tale (.answered authority upstream) todo
  | breaking {upstream draft todo} : (tale.settle todo).Ruled seen →
      (tale.settle todo).breakpointState = .none → Tells seen tale (.breaking upstream draft) todo
  | paused {upstream draft received todo} : (tale.settle todo).Ruled seen →
      (tale.settle todo).breakpointState ≠ .none →
      Tells seen tale (.paused upstream draft received) todo
  | shaping {upstream draft todo} : (tale.settle todo).Ruled seen →
      Tells seen tale (.shaping upstream draft) todo
  | returning {op response upstream todo} : op.response? = some response →
      (∀ errand ∈ todo, errand.own = false) → tale.Ruled seen → seen.upstream = some upstream →
      tale.status = some response.status →
      tale.responseHeaders = safeHeaders (response.shownHeaders upstream) →
      Tells seen tale op todo
  | refused {response todo} : Tells seen tale (.refused response) todo

def Task.Tells (t : Task) (c : Capture) : Prop :=
  ∀ x op todo, t.pc = .serving x op todo → SippinSoda.Tells t.seen c.tale op todo

theorem Tells.errand {seen : Seen} {tale : Tale} {op : Op} {errand : Errand} {todo : List Errand}
    (h : Tells seen tale op (errand :: todo)) : Tells seen (tale.errand errand) op todo := by
  generalize hqueue : errand :: todo = queue at h
  cases h with
  | early hearly hnone =>
      subst hqueue
      exact .early hearly hnone
  | answered hnone =>
      subst hqueue
      exact .answered hnone
  | breaking hruled hnone =>
      subst hqueue
      exact .breaking hruled hnone
  | paused hruled hsome =>
      subst hqueue
      exact .paused hruled hsome
  | shaping hruled =>
      subst hqueue
      exact .shaping hruled
  | returning hop hothers hruled hupstream hstatus hheaders =>
      subst hqueue
      rw [Tale.errand_of_others (hothers errand List.mem_cons_self)]
      exact .returning hop (fun errand herrand => hothers errand (List.mem_cons_of_mem _ herrand))
        hruled hupstream hstatus hheaders
  | refused => exact .refused

/-- Before the rule lookup nothing has been told. -/
theorem Tells.traceless {seen : Seen} {tale : Tale} {op : Op}
    (h : Tells seen tale op [])
    (hop : op.early = true ∨ ∃ authority upstream, op = .answered authority upstream) :
    tale.Traceless := by
  generalize hnil : ([] : List Errand) = todo at h
  cases h with
  | early _ hnone =>
      subst hnil
      exact hnone
  | answered hnone =>
      subst hnil
      exact hnone
  | returning hresponse =>
      rcases hop with hearly | ⟨authority, upstream, rfl⟩
      · cases (Op.response?_of_early hearly).symm.trans hresponse
      · cases hresponse
  | _ => rcases hop with hearly | ⟨_, _, heq⟩ <;> first | cases hearly | cases heq

theorem Tells.of_response {seen : Seen} {tale : Tale} {op : Op} {todo : List Errand}
    (h : Tells seen tale op todo) {response : Response} (hop : op.response? = some response) :
    ∃ upstream, tale.Ruled seen ∧ seen.upstream = some upstream ∧
      tale.status = some response.status ∧
      tale.responseHeaders = safeHeaders (response.shownHeaders upstream) := by
  cases h with
  | early hearly => cases (Op.response?_of_early hearly).symm.trans hop
  | returning hresponse _ hruled hupstream hstatus hheaders =>
      cases hresponse.symm.trans hop
      exact ⟨_, hruled, hupstream, hstatus, hheaders⟩
  | _ => cases hop

/-- An operation that is about to return a response goes on to do so. -/
theorem Tells.onward {seen : Seen} {tale : Tale} {op op' : Op} {todo todo' : List Errand}
    {response : Response} (h : Tells seen tale op todo) (hop : op.response? = some response)
    (hop' : op'.response? = some response) (hothers : ∀ errand ∈ todo', errand.own = false) :
    Tells seen tale op' todo' := by
  obtain ⟨upstream, hruled, hupstream, hstatus, hheaders⟩ := h.of_response hop
  exact .returning hop' hothers hruled hupstream hstatus hheaders

/-- What is told of the response a draft makes. -/
theorem Tale.apply_told (tale : Tale) (http2 : Bool) {draft : Draft} {upstream : Upstream}
    (hheaders : draft.headers = upstream.headers) :
    tale.apply (draft.told http2) =
      { tale with
        status := some (draft.response http2).status
        responseHeaders := safeHeaders ((draft.response http2).shownHeaders upstream) } := by
  rw [Draft.response_status]
  unfold Draft.told Draft.response
  cases draft.replacement with
  | some replacement => rfl
  | none =>
      rw [hheaders]
      rfl

/-- The rule lookup: the rule it finds is about to be told of. -/
theorem Tells.looked {seen : Seen} {tale : Tale} {upstream : Upstream} {lookup : Lookup}
    (h : tale.Traceless) (hretained : lookup.retained = true) (hupstream : seen.upstream = some upstream)
    (rule : Option ResponseRule) (draft : Draft) :
    Tells { seen with lookup := some lookup, rule } tale (.breaking upstream draft)
      (match rule with
        | none => []
        | some rule => [.change (.ruled upstream.status rule.id rule.name)]) := by
  cases rule with
  | none =>
      refine .breaking ⟨⟨lookup, rfl, hretained⟩, h.ruleId, h.ruleName, ?_⟩ h.breakpointState
      show tale.originalStatus = _
      rw [if_neg, h.originalStatus]
      rintro (hrule | hstate)
      · cases hrule
      · exact hstate h.breakpointState
  | some rule =>
      refine .breaking ⟨⟨lookup, rfl, hretained⟩, rfl, rfl, ?_⟩ h.breakpointState
      show some upstream.status = _
      rw [if_pos (.inl rfl), hupstream]
      rfl

/-- The breakpoint opens: the upstream's status is told of, if the rule has not told of it. -/
theorem Tale.Ruled.pause {c : Capture} {seen : Seen} {upstream : Upstream}
    (h : c.tale.Ruled seen) (hnone : c.breakpointState = .none)
    (hupstream : seen.upstream = some upstream) :
    (c.pause ((Draft.ofUpstream upstream).applyRule seen.rule).status).tale.Ruled seen := by
  obtain ⟨hretained, hid, hname, horiginal⟩ := h
  refine ⟨hretained, hid, hname, ?_⟩
  have hwaiting : BreakpointState.waiting ≠ .none := by decide
  show some (c.originalStatus.getD _) = if seen.rule.isSome = true ∨ BreakpointState.waiting ≠ .none
    then _ else _
  have hwas : c.originalStatus =
      if seen.rule.isSome = true ∨ c.breakpointState ≠ .none then seen.upstream.map (·.status)
      else none := horiginal
  rw [if_pos (.inr hwaiting), hwas, hupstream]
  cases hrule : seen.rule with
  | none =>
      rw [if_neg]
      · rfl
      · rintro (hsome | hstate)
        · cases hsome
        · exact hstate hnone
  | some rule =>
      rw [if_pos (.inl rfl)]
      rfl

/-- The pause is over: that it was there does not change. -/
theorem Tale.Ruled.resume {tale : Tale} {seen : Seen} (h : tale.Ruled seen)
    (hpaused : tale.breakpointState ≠ .none) (received : Option BreakpointDecision) :
    (tale.apply (.resumed received)).Ruled { seen with decision := received } := by
  obtain ⟨hretained, hid, hname, horiginal⟩ := h
  refine ⟨hretained, hid, hname, ?_⟩
  show tale.originalStatus =
    if seen.rule.isSome = true ∨ BreakpointState.after received ≠ .none
    then seen.upstream.map (·.status) else none
  rw [if_pos (.inr (BreakpointState.after_ne_none received)), horiginal, if_pos (.inr hpaused)]

/-- A move of the forwarder after the upstream's answer. -/
theorem Tells.step {c : Capture} {http2 : Bool} {s : State} {x : Handling} {seen : Seen} {op : Op}
    {a : Answer} {m : Move} (h : Tells seen c.tale op []) (hm : Answered http2 s x seen op a m)
    (hd : Drafted http2 x seen op) (hmem : c ∈ s.traffic) (hid : x.id = c.id) (now k : Nat) :
    Tells m.seen ((m.act.section k x.id).onCapture now c).tale m.op m.todo := by
  cases hm with
  | looked authority upstream =>
      have hretained : (s.capture? x.id).isSome = true := by
        rw [State.capture?, List.find?_isSome]
        exact ⟨c, hmem, by simp [hid]⟩
      cases hd with
      | early hearly => cases hearly
      | answered hupstream => exact .looked (h.traceless (.inr ⟨_, _, rfl⟩)) hretained hupstream _ _
      | returning hresponse => cases hresponse
  | opened upstream draft =>
      cases h with
      | early hearly => cases hearly
      | returning hresponse => cases hresponse
      | breaking hruled hnone =>
          cases hd with
          | early hearly => cases hearly
          | returning hresponse => cases hresponse
          | breaking hupstream =>
              rw [hid]
              show Tells seen (Section.onCapture now c (.openBreakpoint c.id k _)).tale _ _
              rw [Section.onCapture_openBreakpoint]
              refine .paused (Tale.Ruled.pause hruled hnone hupstream) ?_
              exact BreakpointState.noConfusion
  | unopened upstream draft =>
      cases h with
      | early hearly => cases hearly
      | returning hresponse => cases hresponse
      | breaking hruled _ => exact .shaping hruled
  | woken upstream draft received =>
      cases h with
      | early hearly => cases hearly
      | returning hresponse => cases hresponse
      | paused hruled hpaused => exact .shaping (hruled.resume hpaused received)
  | shaped upstream draft op c' hop _ htold =>
      cases h with
      | early hearly => cases hearly
      | returning hresponse => cases hresponse
      | shaping hruled =>
          cases hd with
          | early hearly => cases hearly
          | returning hresponse => cases hresponse
          | shaping hupstream =>
              rw [hid]
              show Tells seen (Section.onCapture now c (.update c.id c')).tale _ _
              rw [Section.onCapture_update, Capture.tale_apply, htold,
                c.tale.apply_told http2 (shaped_headers upstream seen.rule seen.decision)]
              rcases hop with rfl | rfl
              · exact .returning rfl own_nil ⟨hruled.1, hruled.2, hruled.3, hruled.4⟩ hupstream rfl rfl
              · exact .returning rfl own_nil ⟨hruled.1, hruled.2, hruled.3, hruled.4⟩ hupstream rfl rfl
  | stored response => exact h.onward rfl rfl (own_finish _ _)
  | recorded upstream response => exact h.onward rfl rfl own_nil
  | checked upstream response =>
      refine h.onward rfl rfl ?_
      split
      · exact own_nil
      · intro errand herrand
        rw [List.mem_singleton.mp herrand]
        rfl
  | onward op op' a response todo hop hop' _ _ _ hothers => exact h.onward hop hop' hothers

/-- A step of the forwarder. -/
theorem Task.Moved.tells {s : State} {now k : Nat} {t t' : Task} {a : Answer} {sec : Section}
    {c : Capture} (h : t.Moved s now k a sec t') (ht : t.Told) (hmem : c ∈ s.traffic)
    (hid : t.forwards? = some c.id) (htells : t.Tells c) : t'.Tells (sec.onCapture now c) := by
  obtain ⟨x, op, todo, hpc, hands, hx⟩ := Task.at?_eq_some.mp hid
  have hold := htells x op todo hpc
  intro y opy todoy hpcy
  cases h.goes hpc with
  | errand =>
      cases hpcy
      rw [hx, Section.tale_errand]
      exact hold.errand
  | drop => cases hpcy
  | deadline =>
      cases hpcy
      exact .refused
  | asked hstep hasked =>
      rename_i m
      cases hpcy
      have hnone : ((m.act.section k x.id).onCapture now c).tale.Traceless := by
        have hwas := hold.traceless (.inl hasked.early)
        have hact := hasked.act
        cases hm : m.act with
        | nothing => exact hwas
        | change change =>
            rw [hm] at hact
            rw [hx]
            show (Section.onCapture now c (.update c.id change)).tale.Traceless
            rw [Section.onCapture_update, Capture.tale_apply]
            exact hwas.apply (Bool.and_eq_true _ _ ▸ hact).1
        | _ =>
            rw [hm] at hact
            cases hact
      show SippinSoda.Tells m.seen _ m.op m.todo
      rcases hasked.next with hearly | ⟨response, heq⟩ | ⟨authority, upstream, heq, -⟩
      · exact .early hearly (hnone.settle hasked.todo)
      · rw [heq]
        exact .refused
      · rw [heq]
        exact .answered (hnone.settle hasked.todo)
  | answered hanswered =>
      cases hpcy
      exact hold.step hanswered (ht.of_serving hpc).2.2 hmem hx now k

/-- The capture shows the response, and what it was before. -/
structure Capture.Shows (c : Capture) (response : Response) (upstream : Upstream)
    (rule : Option ResponseRule) : Prop where
  status : c.status = some response.status
  headers : c.responseHeaders = safeHeaders (response.shownHeaders upstream)
  ruleId : c.responseRuleId = rule.map (·.id)
  ruleName : c.responseRuleName = rule.map (·.name)
  originalStatus : c.originalStatus =
    if rule.isSome = true ∨ c.breakpointState ≠ .none then some upstream.status else none

theorem BreakpointDecision.Accepted.typed {decision : BreakpointDecision} (h : decision.Accepted) :
    decision.body.isSome = decision.contentType.isSome := by
  obtain ⟨status, body, contentType, h⟩ := h
  obtain ⟨replacement, -, -, hbody, hcontentType⟩ := compile_ok h
  rw [hbody, hcontentType, Option.isSome_map, Option.isSome_map]

/-- A rule or a decision changes the response. -/
def Altered (rule : Option ResponseRule) (decision : Option BreakpointDecision) : Prop :=
  rule.isSome = true ∨ ∃ d, decision = some d ∧ d.modifies = true

/-- The response has a body that its status forbids. -/
def Response.Overfull (response : Response) (upstream : Upstream) : Prop :=
  bodyForbidden response.status = true ∧ response.content upstream ≠ []

/-- The body that is left: the decision's, else the rule's, else the upstream's. -/
def leftBody (upstream : Upstream) (rule : Option ResponseRule)
    (decision : Option BreakpointDecision) : List UInt8 :=
  ((decision.bind (·.body)).or (rule.bind (·.body))).getD upstream.content

/-- A decision to set a status that forbids a body leaves none, and one to set a body alone does
not add it to an upstream response whose status forbids it. -/
structure BodyCompatible (upstream : Upstream) (rule : Option ResponseRule)
    (decision : BreakpointDecision) : Prop where
  status : ∀ status, decision.status = some status → bodyForbidden status = true →
    leftBody upstream rule (some decision) = []
  body : ∀ body, decision.status = none → decision.body = some body → rule = none →
    bodyForbidden upstream.status = true → body = []

theorem shaped_content (http2 : Bool) (upstream : Upstream) (rule : Option ResponseRule)
    (decision : Option BreakpointDecision) :
    (shaped http2 upstream rule decision).content upstream = leftBody upstream rule decision := by
  have hchosen : (chosenBody rule decision).map Prod.fst =
      (decision.bind (·.body)).or (rule.bind (·.body)) := by
    have hrule : (chosenBody rule none).map Prod.fst = rule.bind (·.body) := by
      cases rule with
      | none => rfl
      | some rule =>
          show (rule.body.map fun body => (body, rule.contentType)).map Prod.fst = rule.body
          rw [Option.map_map]
          exact Option.map_id'
    cases decision with
    | none => exact hrule
    | some decision =>
        obtain ⟨status, body, contentType⟩ := decision
        cases body with
        | none => exact hrule
        | some body => rfl
  unfold leftBody
  rw [← hchosen]
  unfold Response.content
  cases hbody : chosenBody rule decision with
  | none =>
      rw [(shaped_of_none http2 upstream hbody).1]
      rfl
  | some chosen =>
      rw [(shaped_of_chosen http2 upstream hbody).1]
      rfl

theorem chosenStatus_of_some {upstream : Upstream} {rule : Option ResponseRule}
    {decision : BreakpointDecision} {status : Nat} (h : decision.status = some status) :
    chosenStatus upstream rule (some decision) = status := by
  unfold chosenStatus
  rw [Option.bind_some, h]

theorem chosenStatus_of_none {upstream : Upstream} {rule : Option ResponseRule}
    {decision : BreakpointDecision} (h : decision.status = none) :
    chosenStatus upstream rule (some decision) = chosenStatus upstream rule none := by
  unfold chosenStatus
  rw [Option.bind_some, h]
  rfl

theorem altered_of_status {rule : Option ResponseRule} {decision : BreakpointDecision} {status : Nat}
    (h : decision.status = some status) : Altered rule (some decision) := by
  refine .inr ⟨decision, rfl, ?_⟩
  rw [BreakpointDecision.modifies, h, Option.isSome_some, Bool.true_or]

theorem altered_of_body {rule : Option ResponseRule} {decision : BreakpointDecision}
    {body : List UInt8} (h : decision.body = some body) : Altered rule (some decision) := by
  refine .inr ⟨decision, rfl, ?_⟩
  rw [BreakpointDecision.modifies, h, Option.isSome_some, Bool.or_true]

/-- **A changed response has a body its status allows exactly when** the decision is compatible
with what it changes. Rules always are. -/
theorem shaped_allowed_iff (http2 : Bool) (upstream : Upstream) (rule : Option ResponseRule)
    (decision : Option BreakpointDecision) :
    (Altered rule decision → ¬ (shaped http2 upstream rule decision).Overfull upstream) ↔
      ∀ d, decision = some d → BodyCompatible upstream rule d := by
  unfold Response.Overfull
  rw [shaped_status, shaped_content]
  constructor
  · rintro h d rfl
    refine ⟨fun status hstatus hforbidden => ?_, fun body hnone hbody hrule hforbidden => ?_⟩
    · by_contra hleft
      refine h (altered_of_status hstatus) ⟨?_, hleft⟩
      rw [chosenStatus_of_some hstatus]
      exact hforbidden
    · subst hrule
      by_contra hne
      refine h (altered_of_body hbody) ⟨?_, ?_⟩
      · rw [chosenStatus_of_none hnone]
        exact hforbidden
      · unfold leftBody
        rw [Option.bind_some, hbody]
        exact hne
  · rintro h haltered ⟨hforbidden, hleft⟩
    -- a status that a rule sets does not forbid a body
    have hrule (rule' : ResponseRule) (hsome : rule = some rule')
        (hchosen : chosenStatus upstream rule decision = chosenStatus upstream rule none) : False := by
      rw [hchosen, hsome] at hforbidden
      exact Bool.false_ne_true (rule'.bodyAllowed.symm.trans hforbidden)
    cases decision with
    | none =>
        rcases haltered with hsome | ⟨d, hd, -⟩
        · obtain ⟨rule', hrule'⟩ := Option.isSome_iff_exists.mp hsome
          exact hrule rule' hrule' rfl
        · cases hd
    | some d =>
        cases hstatus : d.status with
        | some status =>
            rw [chosenStatus_of_some hstatus] at hforbidden
            exact hleft ((h d rfl).status status hstatus hforbidden)
        | none =>
            have hchosen : chosenStatus upstream rule (some d) = chosenStatus upstream rule none :=
              chosenStatus_of_none hstatus
            cases hrule' : rule with
            | some rule' => exact hrule rule' hrule' hchosen
            | none =>
                subst hrule'
                rw [hchosen] at hforbidden
                rcases haltered with hsome | ⟨d', hd, hmodifies⟩
                · cases hsome
                · cases hd
                  rw [BreakpointDecision.modifies, hstatus, Option.isSome_none, Bool.false_or]
                    at hmodifies
                  obtain ⟨body, hbody⟩ := Option.isSome_iff_exists.mp hmodifies
                  have hempty := (h d rfl).body body hstatus hbody rfl hforbidden
                  apply hleft
                  unfold leftBody
                  rw [Option.bind_some, hbody, hempty]
                  rfl

/-- **Every response returned in a run**: when a rule or a decision changed it, its status allows
its body exactly when the decision, if there was one, is compatible with what it changes. -/
theorem changed_response_is_allowed {crypto : Crypto} {es : List Event} {s : Engine}
    (hrun : (engine crypto).run es = some s) {t : Task} (ht : t ∈ s.tasks) {x : Handling}
    {response : Response} {todo : List Errand}
    (hpc : t.pc = .serving x (.returned response) todo) :
    ∃ upstream lookup, t.seen.upstream = some upstream ∧ t.seen.lookup = some lookup ∧
      LookedUp crypto es x lookup ∧
      (∀ rule, t.seen.rule = some rule → rule ∈ lookup.rules) ∧
      (∀ d, t.seen.decision = some d → d.Accepted) ∧
      ((Altered t.seen.rule t.seen.decision → ¬ response.Overfull upstream) ↔
        ∀ d, t.seen.decision = some d → BodyCompatible upstream t.seen.rule d) := by
  have h := Machine.reachable_of_run es hrun
  obtain ⟨-, -, hdrafted⟩ := (Engine.told h t ht).of_serving hpc
  cases hdrafted with
  | early hearly => cases hearly
  | returning hresponse hupstream hlooked =>
      rename_i upstream _
      obtain ⟨lookup, hlookup, -, -, hrule⟩ := hlooked
      refine ⟨upstream, lookup, hupstream, hlookup,
        lookedUp_of_run hrun t ht x _ todo lookup hpc hlookup, fun rule hsome => ?_, fun d hd => ?_, ?_⟩
      · rw [hsome] at hrule
        split at hrule
        · exact List.mem_of_find?_eq_some hrule.symm
        · cases hrule
      · exact Engine.accepted h _ (Engine.sent h t ht x _ todo d hpc hd) d rfl
      · have heq : response = shaped t.origin.http2 upstream t.seen.rule t.seen.decision :=
          Option.some.inj hresponse
        rw [heq]
        exact shaped_allowed_iff t.origin.http2 upstream t.seen.rule t.seen.decision

/-- A mocked response. -/
theorem mocked_response_is_allowed :
    ∃ s t x response todo upstream, (engine .unused).run mockedAndStored = some s ∧ t ∈ s.tasks ∧
      t.pc = .serving x (.returned response) todo ∧ t.seen.upstream = some upstream ∧
      t.seen.rule.isSome = true ∧ ¬ response.Overfull upstream := by
  have hrun : ∃ s t x response todo, (engine .unused).run mockedAndStored = some s ∧ t ∈ s.tasks ∧
      t.pc = .serving x (.returned response) todo ∧ t.seen.rule.isSome = true ∧
      t.seen.decision = none :=
    ⟨_, _, _, _, _, rfl, List.mem_cons_self, rfl, rfl, rfl⟩
  obtain ⟨s, t, x, response, todo, hrun, ht, hpc, hrule, hdecision⟩ := hrun
  obtain ⟨upstream, -, hupstream, -, -, -, -, hiff⟩ :=
    changed_response_is_allowed hrun ht hpc
  refine ⟨s, t, x, response, todo, upstream, hrun, ht, hpc, hupstream, hrule, ?_⟩
  exact hiff.mpr (fun d hd => by cases hdecision.symm.trans hd) (.inl hrule)

/-- The user answers a paused response that has a body with the status 204. -/
def emptiedByStatus : List Event :=
  starting breakingOnResponses ++ [.accept] ++
    answers 0 (untilSent (plainGet localhost) ++
      [.upstream (some ⟨200, [], false, utf8 "hi".toList⟩), .go, .go]) ++
    [.resolve 1 (some 204) none none, .send 0] ++ answers 0 [.wake, .go, .go, .go, .go, .go]

/-- The call succeeds, and the response comes back with the status and the body. -/
theorem status_leaves_forbidden_body :
    (∃ s t x response upstream d, (engine .unused).run emptiedByStatus = some s ∧ t ∈ s.tasks ∧
      t.pc = .serving x (.returned response) [] ∧ t.seen.upstream = some upstream ∧
      s.resolvers = [.returned x.id (.ok d)] ∧ t.seen.decision = some d ∧ response.status = 204 ∧
      response.content upstream = utf8 "hi".toList) ∧
    ¬ ∀ s, (engine .unused).Reachable s → ∀ t ∈ s.tasks, ∀ x response todo upstream,
      t.pc = .serving x (.returned response) todo → t.seen.upstream = some upstream →
      Altered t.seen.rule t.seen.decision → ¬ response.Overfull upstream := by
  have hrun : ∃ s t x response upstream d, (engine .unused).run emptiedByStatus = some s ∧
      t ∈ s.tasks ∧ t.pc = .serving x (.returned response) [] ∧ t.seen.upstream = some upstream ∧
      s.resolvers = [.returned x.id (.ok d)] ∧ t.seen.decision = some d ∧ d.modifies = true ∧
      response.status = 204 ∧ response.content upstream = utf8 "hi".toList :=
    ⟨_, _, _, _, _, _, rfl, List.mem_cons_self, rfl, rfl, rfl, rfl, rfl, rfl, rfl⟩
  obtain ⟨s, t, x, response, upstream, d, hrun, ht, hpc, hupstream, hresolvers, hdecision,
    hmodifies, hstatus, hcontent⟩ := hrun
  refine ⟨⟨s, t, x, response, upstream, d, hrun, ht, hpc, hupstream, hresolvers, hdecision, hstatus,
    hcontent⟩, fun hall => ?_⟩
  refine hall s (Machine.reachable_of_run _ hrun) t ht x response [] upstream hpc hupstream
    (.inr ⟨d, hdecision, hmodifies⟩) ⟨?_, ?_⟩
  · rw [hstatus]
    rfl
  · rw [hcontent]
    exact List.cons_ne_nil _ _

end SippinSoda
