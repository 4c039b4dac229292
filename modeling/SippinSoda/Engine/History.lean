import SippinSoda.Engine.Consistent
import SippinSoda.Engine.Lifecycle

/-!
# What a task has met

The history of a task is told by where it stands.

* **Classed**, **Routed** — the host an exchange is for, and what its class has allowed on
  the way there;
* **Drafted** — what the response is made from, point by point;
* **Told** — all of these, and what came before the exchange began.
-/

namespace SippinSoda

/-! ## The way to the upstream -/

/-- The authority an operation is for, once it has been checked. -/
def Op.authority? : Op → Option Authority
  | .preparing authority _ | .dialing authority _ _ | .upgrading authority _
  | .securing authority _ | .serving authority _ _ _ | .copying authority
  | .connecting authority _ | .intercepting authority | .acquiring authority
  | .rewriting authority | .sending authority | .answered authority _ => some authority
  | _ => none

/-- Has the upstream been connected to? -/
def Op.connected : Op → Bool
  | .establishing | .preparing _ _ | .dialing _ _ _ | .forwarding | .connecting _ _
  | .ended | .refused _ => false
  | _ => true

/-- The TLS interception route of a tunnel. -/
def Op.route? : Op → Option TlsInterceptRoute
  | .dialing _ _ route | .upgrading _ route => route
  | .securing _ route | .serving _ route _ _ => some route
  | _ => none

/-- Has the leaf issuer been asked on the way to this point? -/
def Op.issues : Op → Bool
  | .preparing _ _ => true
  | op => op.route?.isSome

/-- The class is that of the host, and a replay is of a Development exchange. -/
structure Classed (x : Handling) (seen : Seen) : Prop where
  classed : x.destination = x.classifier.classify (trimBrackets x.host)
  noted : seen.destination = some x.destination
  replayed : seen.replayed = true → x.destination = .development

/-- The exchange goes to its host, and the issuer is asked for a Development one alone. -/
structure Routed (x : Handling) (seen : Seen) (op : Op) : Prop where
  unchecked : op = .establishing ∨ op = .forwarding → x.request.uri.host = x.host
  authority : ∀ authority, op.authority? = some authority → authority.host = x.host
  dialed : ∀ host, seen.dialed = some host → host = trimBrackets x.host
  connected : op.connected = true → seen.dialed.isSome = true
  issues : op.issues = true → seen.issuerCalled = true
  issuer : seen.issuerCalled = true → x.destination = .development

/-- A point that nothing is asked of. -/
theorem Routed.to {x : Handling} {seen : Seen} {op op' : Op} (h : Routed x seen op)
    (hunchecked : op' ≠ .establishing ∧ op' ≠ .forwarding)
    (hauthority : op'.authority? = none ∨ op'.authority? = op.authority?)
    (hconnected : op'.connected = true → op.connected = true)
    (hissues : op'.issues = true → op.issues = true) : Routed x seen op' where
  unchecked hop := absurd hop (not_or.mpr hunchecked)
  authority a ha := by
    rcases hauthority with hnone | hsame
    · cases hnone.symm.trans ha
    · exact h.authority a (hsame ▸ ha)
  dialed := h.dialed
  connected hop := h.connected (hconnected hop)
  issues hop := h.issues (hissues hop)
  issuer := h.issuer

/-- The parts of the history it does not tell may change. -/
theorem Routed.congr {x : Handling} {seen seen' : Seen} {op : Op} (h : Routed x seen op)
    (hdialed : seen'.dialed = seen.dialed) (hissuer : seen'.issuerCalled = seen.issuerCalled) :
    Routed x seen' op where
  unchecked := h.unchecked
  authority := h.authority
  dialed host hhost := h.dialed host (hdialed ▸ hhost)
  connected hop := hdialed ▸ h.connected hop
  issues hop := hissuer ▸ h.issues hop
  issuer hcalled := h.issuer (hissuer ▸ hcalled)

/-- The target has been checked. -/
theorem Routed.check {x : Handling} {seen : Seen} {op op' : Op} {authority : Authority}
    (h : Routed x seen op) (hop : op = .establishing ∨ op = .forwarding)
    (hhost : authority.host = x.request.uri.host)
    (hunchecked : op' ≠ .establishing ∧ op' ≠ .forwarding)
    (hauthority : op'.authority? = some authority) (hconnected : op'.connected = false)
    (hissues : op'.issues = true → seen.issuerCalled = true) : Routed x seen op' where
  unchecked hop := absurd hop (not_or.mpr hunchecked)
  authority a ha := by
    cases hauthority.symm.trans ha
    exact hhost.trans (h.unchecked hop)
  dialed := h.dialed
  connected hop := absurd (hconnected.symm.trans hop) (by simp)
  issues := hissues
  issuer := h.issuer

/-- The host has been connected to. -/
theorem Routed.dial {x : Handling} {seen : Seen} {op : Op} {authority : Authority}
    (h : Routed x seen op) (hauthority : op.authority? = some authority) :
    Routed x { seen with dialed := some (trimBrackets authority.host) } op where
  unchecked := h.unchecked
  authority := h.authority
  dialed host hhost := by
    cases hhost
    rw [h.authority authority hauthority]
  connected _ := rfl
  issues := h.issues
  issuer := h.issuer

/-- The issuer is about to be asked. -/
theorem Routed.issue {x : Handling} {seen : Seen} {op : Op} (h : Routed x seen op)
    (hclass : x.destination = .development) :
    Routed x { seen with issuerCalled := true } op where
  unchecked := h.unchecked
  authority := h.authority
  dialed := h.dialed
  connected := h.connected
  issues _ := rfl
  issuer _ := hclass

theorem establishTarget_host {request : Request} {authority : Authority} {port : Nat}
    (h : establishTarget request = .ok (authority, port)) : authority.host = request.uri.host := by
  obtain ⟨method, ⟨scheme, target, path, query⟩, headers, bodyEnded⟩ := request
  cases target with
  | none => cases h
  | some a =>
      have hsame : a = authority := by
        simp only [establishTarget, bind, Except.bind, pure, Except.pure] at h
        split at h
        · cases h
        · cases hport : a.port with
          | none => simp [hport] at h
          | some port' =>
              simp only [hport] at h
              split at h
              · cases h
              · split at h
                · cases h
                · exact (Prod.mk.inj (Except.ok.inj h)).1
      rw [← hsame]
      rfl

theorem forwardTarget_host {request : Request} {authority : Authority} {port : Nat}
    (h : forwardTarget request = .ok (authority, port)) : authority.host = request.uri.host := by
  simp only [forwardTarget, bind, Except.bind] at h
  split at h
  · cases h
  · split at h
    · cases h
    next hauthority =>
      rw [Uri.host, hauthority]
      split at h
      · cases h
      · split at h <;> cases h
        rfl

theorem Routed.refuse {x : Handling} {seen : Seen} {op : Op} (h : Routed x seen op)
    (error : ForwardError) : Routed x (x.refuse seen error).seen (x.refuse seen error).op :=
  h.to ⟨nofun, nofun⟩ (.inl rfl) nofun nofun

theorem prepares_development {tls : Option ProxyTlsInterception} {destination : DestinationClass}
    {clientProfileId : Option Str} (h : prepares tls destination clientProfileId = true) :
    destination = .development := by
  unfold prepares at h
  split at h
  · cases h
  · simp only [Bool.and_eq_true, decide_eq_true_eq] at h
    exact h.1

theorem routed_tunnel {proxy : SocketAddr} {tls : Option ProxyTlsInterception} {x : Handling}
    {seen : Seen} {op : Op} {a : Answer} {m : Move} (hr : Routed x seen op)
    (h : tunnelStep proxy tls x seen op a = some m) : Routed x m.seen m.op := by
  unfold tunnelStep at h
  split at h
  -- establishing
  · split at h
    · cases h
      exact hr.refuse _
    next authority port htarget =>
      have hhost := establishTarget_host htarget
      split at h <;> cases h
      next hprepares =>
        exact (hr.issue (prepares_development hprepares)).check (.inl rfl) hhost ⟨nofun, nofun⟩
          rfl rfl fun _ => rfl
      · exact hr.check (.inl rfl) hhost ⟨nofun, nofun⟩ rfl rfl nofun
  -- preparing
  · split at h <;> cases h
    · exact hr.refuse _
    · exact hr.to ⟨nofun, nofun⟩ (.inr rfl) nofun nofun
    · exact hr.to ⟨nofun, nofun⟩ (.inr rfl) nofun fun _ => rfl
  -- dialing
  · simp only at h
    have hdialed := hr.dial rfl
    split at h <;> cases h
    · exact hdialed.refuse _
    · exact {
        unchecked := nofun, authority := hr.authority, dialed := hdialed.dialed
        connected := fun _ => rfl, issues := hr.issues, issuer := hr.issuer }
  -- upgrading
  · split at h
    · cases h
      exact hr.to ⟨nofun, nofun⟩ (.inl rfl) nofun nofun
    · split at h <;> cases h
      · exact hr.to ⟨nofun, nofun⟩ (.inr rfl) id nofun
      · exact hr.to ⟨nofun, nofun⟩ (.inr rfl) id id
  -- securing
  · split at h <;> cases h
    · exact hr.to ⟨nofun, nofun⟩ (.inr rfl) id id
    · exact hr.to ⟨nofun, nofun⟩ (.inl rfl) nofun nofun
  -- serving
  · cases h
    exact hr.to ⟨nofun, nofun⟩ (.inl rfl) nofun nofun
  -- copying
  · split at h <;> cases h
    exact hr
  · cases h
    exact hr.to ⟨nofun, nofun⟩ (.inl rfl) nofun nofun
  · cases h

theorem routed_send {proxy : SocketAddr} {http2 : Bool} {s : State} {x : Handling}
    {seen : Seen} {op : Op} {a : Answer} {m : Move} (hr : Routed x seen op)
    (h : sendStep proxy http2 s x seen op a = some m) : Routed x m.seen m.op := by
  unfold sendStep at h
  split at h
  -- forwarding
  · split at h
    · cases h
      exact hr.refuse _
    next htarget =>
      cases h
      exact hr.check (.inr rfl) (forwardTarget_host htarget) ⟨nofun, nofun⟩ rfl rfl nofun
  -- connecting
  · simp only at h
    have hdialed := hr.dial rfl
    split at h
    · cases h
      exact hdialed.refuse _
    · split at h <;> cases h
      · exact {
          unchecked := nofun, authority := hr.authority, dialed := hdialed.dialed
          connected := fun _ => rfl, issues := nofun, issuer := hr.issuer }
      · exact hdialed.refuse _
  -- intercepting
  · split at h <;> cases h
    · exact hr.refuse _
    · exact hr.to ⟨nofun, nofun⟩ (.inr rfl) id nofun
  -- acquiring
  · cases h
    exact hr.to ⟨nofun, nofun⟩ (.inr rfl) id nofun
  -- rewriting
  · cases h
    exact Routed.congr (hr.to ⟨nofun, nofun⟩ (.inr rfl) id nofun) rfl rfl
  -- sending
  · split at h <;> cases h
    · exact hr.refuse _
    · exact Routed.congr (hr.to ⟨nofun, nofun⟩ (.inr rfl) id nofun) rfl rfl
  · cases h

/-- After the upstream's answer nothing is dialled and no route is left. -/
theorem routed_answered {http2 : Bool} {s : State} {x : Handling} {seen : Seen} {op : Op}
    {a : Answer} {m : Move} (hr : Routed x seen op) (h : Answered http2 s x seen op a m) :
    Routed x m.seen m.op := by
  cases h with
  | looked => exact Routed.congr (hr.to ⟨nofun, nofun⟩ (.inl rfl) id nofun) rfl rfl
  | opened => exact hr.to ⟨nofun, nofun⟩ (.inl rfl) id nofun
  | unopened => exact hr.to ⟨nofun, nofun⟩ (.inl rfl) id nofun
  | woken => exact Routed.congr (hr.to ⟨nofun, nofun⟩ (.inl rfl) id nofun) rfl rfl
  | shaped _ _ _ _ hop =>
      rcases hop with rfl | rfl <;> exact hr.to ⟨nofun, nofun⟩ (.inl rfl) id nofun
  | stored => exact hr.to ⟨nofun, nofun⟩ (.inl rfl) id nofun
  | recorded => exact hr.to ⟨nofun, nofun⟩ (.inl rfl) id nofun
  | checked => exact hr.to ⟨nofun, nofun⟩ (.inl rfl) id nofun
  | onward op op' _ response _ hresponse hresponse' =>
      cases op' <;> try cases hresponse'
      all_goals
        cases op <;> try cases hresponse
        all_goals exact hr.to ⟨nofun, nofun⟩ (.inl rfl) id nofun

/-- A move of an operation keeps the exchange on its way. -/
theorem routed_step {proxy : SocketAddr} {tls : Option ProxyTlsInterception} {http2 : Bool}
    {s : State} {x : Handling} {seen : Seen} {op : Op} {a : Answer} {m : Move}
    (hr : Routed x seen op) (h : op.step proxy tls http2 s x seen a = some m) :
    Routed x m.seen m.op := by
  unfold Op.step at h
  split at h
  next htunnel =>
    cases h
    exact routed_tunnel hr htunnel
  next =>
    split at h
    next hsend =>
      cases h
      exact routed_send hr hsend
    next => exact routed_answered hr (answered_of_step h)

/-! ## The response -/

/-- What the rule lookup found: the rules of the state it met, the host of the exchange, and
the first rule that matches, if the capture was there and its class allows one. -/
def Looked (x : Handling) (seen : Seen) : Prop :=
  ∃ lookup, seen.lookup = some lookup ∧
    (∃ configs, ResponseRule.compileAll configs = .ok lookup.rules) ∧
    lookup.host = Str.toAsciiLowercase (Str.trimEndMatches (· == '.') (trimBrackets x.host)) ∧
    seen.rule =
      if lookup.retained = true ∧ x.destination = .development then
        lookup.rules.find? (·.matches lookup.host x.request.uri.path x.request.method)
      else none

/-- What the response of an exchange is made from, point by point. -/
inductive Drafted (http2 : Bool) (x : Handling) (seen : Seen) : Op → Prop
  | early {op} : op.early = true → seen.decision = none → Drafted http2 x seen op
  | refused {response} : Drafted http2 x seen (.refused response)
  | answered {authority upstream} : seen.upstream = some upstream → seen.decision = none →
      Drafted http2 x seen (.answered authority upstream)
  | breaking {upstream} : seen.upstream = some upstream → seen.decision = none → Looked x seen →
      Drafted http2 x seen (.breaking upstream ((Draft.ofUpstream upstream).applyRule seen.rule))
  | paused {upstream received} : seen.upstream = some upstream → seen.decision = none →
      Looked x seen → x.destination = .development →
      Drafted http2 x seen
        (.paused upstream ((Draft.ofUpstream upstream).applyRule seen.rule) received)
  | shaping {upstream} : seen.upstream = some upstream → Looked x seen →
      (seen.decision.isSome = true → x.destination = .development) →
      Drafted http2 x seen (.shaping upstream
        (((Draft.ofUpstream upstream).applyRule seen.rule).decide seen.decision))
  | returning {op upstream} : op.response? = some (shaped http2 upstream seen.rule seen.decision) →
      seen.upstream = some upstream → Looked x seen →
      (seen.decision.isSome = true → x.destination = .development) → Drafted http2 x seen op

theorem Op.response?_of_early {op : Op} (h : op.early = true) : op.response? = none := by
  cases op <;> first | rfl | cases h

theorem drafted_asked {http2 : Bool} {x : Handling} {seen : Seen} {op : Op} {m : Move}
    (hd : Drafted http2 x seen op) (h : Asked seen op m) : Drafted http2 x m.seen m.op := by
  have hearly := h.early
  have hdecision : m.seen.decision = none := by
    rw [h.decision]
    cases hd with
    | early _ hdecision => exact hdecision
    | returning hresponse => cases (Op.response?_of_early hearly).symm.trans hresponse
    | _ => cases hearly
  rcases h.next with hnext | ⟨response, heq⟩ | ⟨authority, upstream, heq, hupstream⟩
  · exact .early hnext hdecision
  · exact heq ▸ .refused
  · exact heq ▸ .answered hupstream hdecision

theorem drafted_answered {http2 : Bool} {s : State} {x : Handling} {seen : Seen} {op : Op}
    {a : Answer} {m : Move}
    (hrules : ∃ configs, ResponseRule.compileAll configs = .ok s.responseRules)
    (hmodify : s.canModify x.id = true ↔ s.Retained x.id ∧ x.destination = .development)
    (hauthority : ∀ authority, op.authority? = some authority → authority.host = x.host)
    (hd : Drafted http2 x seen op) (h : Answered http2 s x seen op a m) :
    Drafted http2 x m.seen m.op := by
  cases h with
  | looked authority upstream =>
      cases hd with
      | early hearly => cases hearly
      | returning hresponse => cases hresponse
      | answered hupstream hdecision =>
          refine .breaking hupstream hdecision ⟨_, rfl, hrules, ?_, ?_⟩
          · simp only [ruleHost]
            rw [hauthority authority rfl]
          · have hretained : (s.capture? x.id).isSome = true ↔ s.Retained x.id := by
              rw [State.capture?, List.find?_isSome]
              simp [State.Retained]
            simp only [State.findRule, hretained, hmodify]
  | opened upstream draft hbreak hcan =>
      cases hd with
      | early hearly => cases hearly
      | returning hresponse => cases hresponse
      | breaking hupstream hdecision hlooked =>
          exact .paused hupstream hdecision hlooked (hmodify.mp hcan).2
  | unopened upstream draft =>
      cases hd with
      | early hearly => cases hearly
      | returning hresponse => cases hresponse
      | breaking hupstream hdecision hlooked =>
          have h : Drafted http2 x seen (.shaping upstream _) :=
            .shaping hupstream hlooked (by simp [hdecision])
          rwa [hdecision] at h
  | woken upstream draft received =>
      cases hd with
      | early hearly => cases hearly
      | returning hresponse => cases hresponse
      | paused hupstream hdecision hlooked hclass => exact .shaping hupstream hlooked fun _ => hclass
  | shaped upstream draft op c hop =>
      cases hd with
      | early hearly => cases hearly
      | returning hresponse => cases hresponse
      | shaping hupstream hlooked hclass =>
          rcases hop with rfl | rfl <;> exact .returning rfl hupstream hlooked hclass
  | stored response =>
      cases hd with
      | early hearly => cases hearly
      | returning hresponse hupstream hlooked hclass =>
          exact .returning hresponse hupstream hlooked hclass
  | recorded upstream response =>
      cases hd with
      | early hearly => cases hearly
      | returning hresponse hupstream hlooked hclass =>
          exact .returning hresponse hupstream hlooked hclass
  | checked upstream response =>
      cases hd with
      | early hearly => cases hearly
      | returning hresponse hupstream hlooked hclass =>
          exact .returning hresponse hupstream hlooked hclass
  | onward op op' a response todo hop hop' =>
      cases hd with
      | early hearly => cases (Op.response?_of_early hearly).symm.trans hop
      | returning hresponse hupstream hlooked hclass =>
          exact .returning (hop'.trans (hop.symm.trans hresponse)) hupstream hlooked hclass
      | _ => cases hop

/-! ## The task -/

/-- A replay to another destination than a Development one is not forwarded. -/
def Seen.ReplaysDevelopment (seen : Seen) : Prop :=
  seen.replayed = true → ∀ destination, seen.destination = some destination →
    destination ≠ .development → seen.sent = none ∧ seen.upstream = none

/-- What a task has met, by its program counter. -/
inductive Told (http2 : Bool) (seen : Seen) : Pc → Prop
  | connected : seen = .nothing → Told http2 seen .connected
  | arrived {request} : seen = .nothing → Told http2 seen (.arrived request)
  | admitted {request clientProfileId replay} :
      seen = { Seen.nothing with replayed := replay.isSome } →
      Told http2 seen (.admitted request clientProfileId replay)
  | classified {request clientProfileId replay classifier} :
      seen = { Seen.nothing with
        replayed := replay.isSome
        destination := some (classifier.classify request.uri.host) } →
      Told http2 seen (.classified request clientProfileId replay
        (classifier.classify request.uri.host) classifier)
  | unauthorized : seen.replayed = false → Told http2 seen (.answered proxyAuthenticationRequired)
  | forbidden {destination} : seen.destination = some destination → destination ≠ .development →
      seen.sent = none → seen.upstream = none → Told http2 seen (.answered replayForbidden)
  | serving {x op todo} : Classed x seen → Routed x seen op → Drafted http2 x seen op →
      Told http2 seen (.serving x op todo)
  | gone : seen.ReplaysDevelopment → Told http2 seen .gone

theorem Told.replays {http2 : Bool} {seen : Seen} {pc : Pc} (h : Told http2 seen pc) :
    seen.ReplaysDevelopment := by
  intro hreplayed destination hdestination hother
  cases h with
  | connected hseen => rw [hseen] at hreplayed; cases hreplayed
  | arrived hseen => rw [hseen] at hreplayed; cases hreplayed
  | admitted hseen => rw [hseen]; exact ⟨rfl, rfl⟩
  | classified hseen => rw [hseen]; exact ⟨rfl, rfl⟩
  | unauthorized hnone => cases hnone.symm.trans hreplayed
  | forbidden _ _ hsent hupstream => exact ⟨hsent, hupstream⟩
  | serving hclassed =>
      cases hclassed.noted.symm.trans hdestination
      exact absurd (hclassed.replayed hreplayed) hother
  | gone hreplays => exact hreplays hreplayed destination hdestination hother

def Task.Told (t : Task) : Prop := SippinSoda.Told t.origin.http2 t.seen t.pc

theorem Task.Told.of_serving {t : Task} (h : t.Told) {x : Handling} {op : Op} {todo : List Errand}
    (hpc : t.pc = .serving x op todo) :
    Classed x t.seen ∧ Routed x t.seen op ∧ Drafted t.origin.http2 x t.seen op := by
  rw [Task.Told, hpc] at h
  cases h with
  | serving hclassed hrouted hdrafted => exact ⟨hclassed, hrouted, hdrafted⟩

/-- A step of a task, in a state whose rules are compiled and where the capture's class is
that of the exchange. -/
theorem Task.Moved.told {s : State} {now k : Nat} {t t' : Task} {a : Answer} {sec : Section}
    (h : t.Moved s now k a sec t')
    (hrules : ∃ configs, ResponseRule.compileAll configs = .ok s.responseRules)
    (hmodify : ∀ id destination, Serves t id destination →
      (s.canModify id = true ↔ s.Retained id ∧ destination = .development))
    (ht : t.Told) : t'.Told := by
  cases h with
  | errand hpc =>
      obtain ⟨hclassed, hrouted, hdrafted⟩ := ht.of_serving hpc
      exact .serving hclassed hrouted hdrafted
  | drop => exact .gone ht.replays
  | deadline hpc =>
      obtain ⟨hclassed, hrouted, hdrafted⟩ := ht.of_serving hpc
      exact .serving hclassed (hrouted.refuse _) .refused
  | asked hpc hstep hasked =>
      obtain ⟨hclassed, hrouted, hdrafted⟩ := ht.of_serving hpc
      refine .serving ⟨hclassed.classed, ?_, ?_⟩ (routed_step hrouted hstep)
        (drafted_asked hdrafted hasked)
      · exact hasked.destination.trans hclassed.noted
      · exact fun hreplayed => hclassed.replayed (hasked.replayed ▸ hreplayed)
  | answered hpc hanswered =>
      obtain ⟨hclassed, hrouted, hdrafted⟩ := ht.of_serving hpc
      refine .serving ?_ (routed_answered hrouted hanswered)
        (drafted_answered hrules (hmodify _ _ ⟨_, _, _, hpc, rfl, rfl⟩) hrouted.authority hdrafted
          hanswered)
      cases hanswered <;> exact ⟨hclassed.classed, hclassed.noted, hclassed.replayed⟩
  | arrive hpc =>
      rw [Task.Told, hpc] at ht
      cases ht with
      | connected hseen => exact .arrived hseen
  | admits _ hpc hsec =>
      rw [Task.Told, hpc] at ht
      cases ht with
      | arrived hseen => exact .admitted (by rw [hseen])
  | unauthorized hpc hsec => exact .unauthorized rfl
  | classify hpc =>
      rw [Task.Told, hpc] at ht
      cases ht with
      | admitted hseen => exact .classified (by rw [hseen])
  | forbid hpc hreplay hclass =>
      rw [Task.Told, hpc] at ht
      cases ht with
      | classified hseen =>
          refine .forbidden (congrArg Seen.destination hseen) ?_ (congrArg Seen.sent hseen)
            (congrArg Seen.upstream hseen)
          intro hdev
          rw [(authorized_iff (by decide)).mpr hdev] at hclass
          cases hclass
  | begin hpc hreplay =>
      rename_i request clientProfileId replay destination classifier
      rw [Task.Told, hpc] at ht
      cases ht with
      | classified hseen =>
          refine .serving ⟨?_, congrArg Seen.destination hseen, fun hreplayed => ?_⟩ ?_
            (.early ?_ (congrArg Seen.decision hseen))
          · exact (classify_trimBrackets classifier request.uri).symm
          · rw [hseen] at hreplayed
            exact (authorized_iff (by decide)).mp (hreplay hreplayed)
          · have hnothing : t.seen.dialed = none ∧ t.seen.issuerCalled = false := by
              rw [hseen]
              exact ⟨rfl, rfl⟩
            split <;> exact {
              unchecked := fun _ => rfl, authority := nofun
              dialed := fun host hhost => nomatch hnothing.1.symm.trans hhost
              connected := nofun, issues := nofun
              issuer := fun hcalled => nomatch hnothing.2.symm.trans hcalled }
          · split <;> rfl

theorem Task.told_receive {t t' : Task} {decision : BreakpointDecision}
    (h : t.receive decision = some t') (ht : t.Told) : t'.Told := by
  rw [Task.receive] at h
  split at h
  next hpc =>
    cases h
    obtain ⟨hclassed, hrouted, hdrafted⟩ := ht.of_serving hpc
    refine .serving hclassed (hrouted.to ⟨?_, ?_⟩ (.inl rfl) id ?_) ?_
    · intro h; cases h
    · intro h; cases h
    · intro h; cases h
    cases hdrafted with
    | paused hupstream hdecision hlooked hclass => exact .paused hupstream hdecision hlooked hclass
    | early hearly => cases hearly
    | returning hresponse => cases hresponse
  next => cases h

/-- The task of a request in a tunnel starts from what the tunnel has met. -/
theorem Task.told_inner {t : Task} {x : Handling} {authority : Authority}
    {route : TlsInterceptRoute} {http2 first : Bool} {todo : List Errand}
    (hpc : t.pc = .serving x (.serving authority route http2 first) todo) (ht : t.Told) (k id started : Nat)
    (request : Request) :
    (t.inner k authority http2 { x with id, started, request, replay := none }).Told := by
  obtain ⟨hclassed, hrouted, -⟩ := ht.of_serving hpc
  refine .serving ⟨hclassed.classed, rfl, nofun⟩ ?_ (.early rfl rfl)
  exact {
    unchecked := nofun, authority := hrouted.authority, dialed := hrouted.dialed
    connected := hrouted.connected, issues := nofun, issuer := nofun }

def Engine.Told (s : Engine) : Prop := ∀ t ∈ s.tasks, t.Told

theorem Engine.Told.step {crypto : Crypto} {s s' : Engine} {e : Event} (hc : s.Consistent)
    (hconfigured : s.Configured) (h : s.Told) (hstep : s.step crypto e = some s') : s'.Told := by
  obtain ⟨sec, p, hmoved, hshared, hparties⟩ := step_cases hstep
  intro t' ht'
  rw [hparties, Parties.log_tasks] at ht'
  obtain ⟨i, hi⟩ := List.mem_iff_getElem?.mp ht'
  rcases hmoved.came hi with ⟨t, ht, hbecame⟩ | ⟨-, harrives⟩
  · have hmem := List.mem_of_getElem? ht
    have hold := h t hmem
    cases hbecame with
    | stays => exact hold
    | moves hallows hm =>
        exact hm.told hconfigured.rules (fun _ _ hserves => hc.canModify hmem hserves) hold
    | polls hbody hstep _ => exact hold
    | hands hpc =>
        obtain ⟨hclassed, hrouted, hdrafted⟩ := hold.of_serving hpc
        refine .serving hclassed (hrouted.to ⟨nofun, nofun⟩ (.inr rfl) id id) ?_
        cases hdrafted with
        | early hearly hdecision => exact .early rfl hdecision
        | returning hresponse => cases hresponse
    | receives hresolver hreceive => exact Task.told_receive hreceive hold
  · cases harrives with
    | connection => exact .connected rfl
    | innerFirst hk hpc => exact Task.told_inner hpc (h _ (List.mem_of_getElem? hk)) _ _ _ _
    | innerNext hk hpc => exact Task.told_inner hpc (h _ (List.mem_of_getElem? hk)) _ _ _ _

/-- In every reachable state every task's history is told by where it stands. -/
theorem Engine.told {crypto : Crypto} {s : Engine} (h : (engine crypto).Reachable s) : s.Told :=
  h.invariant_along (fun _ ht => nomatch ht)
    fun hr hs _ hstep => hs.step (consistent hr) (configured hr) hstep

end SippinSoda
