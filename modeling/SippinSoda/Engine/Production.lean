import SippinSoda.Engine.History
import SippinSoda.Engine.Retention

/-!
# Production exchanges are only forwarded

Rules, breakpoints, replays and TLS interception each look the class up on their own, at
their own time. The result of this module is over all of them: an exchange whose class is
not Development gets the upstream's response and nothing else.
-/

namespace SippinSoda

/-- The upstream's response, but for the headers that concern one hop. -/
def Upstream.unmodified (upstream : Upstream) : Response where
  status := upstream.status
  headers := stripHopHeaders upstream.headers
  body := .upstream

theorem shaped_unmodified (http2 : Bool) (upstream : Upstream) :
    shaped http2 upstream none none = upstream.unmodified := rfl

/-! ## One task -/

/-- Only a Development exchange has a rule or a decision. -/
theorem Looked.rule_none {x : Handling} {seen : Seen} (h : Looked x seen)
    (hclass : x.destination ≠ .development) : seen.rule = none := by
  obtain ⟨lookup, -, -, -, hrule⟩ := h
  rw [hrule, if_neg fun hboth => hclass hboth.2]

/-- What an operation on another exchange is about to return. -/
theorem Drafted.response {http2 : Bool} {x : Handling} {seen : Seen} {op : Op}
    (h : Drafted http2 x seen op) (hclass : x.destination ≠ .development) {response : Response}
    (hresponse : op.response? = some response) :
    ∃ upstream, seen.upstream = some upstream ∧ response = upstream.unmodified := by
  cases h with
  | early hearly => cases (Op.response?_of_early hearly).symm.trans hresponse
  | returning hshaped hupstream hlooked hdecision =>
      refine ⟨_, hupstream, ?_⟩
      cases hresponse.symm.trans hshaped
      rw [hlooked.rule_none hclass, ← shaped_unmodified http2]
      cases hdec : seen.decision with
      | none => rfl
      | some decision => exact absurd (hdecision (by rw [hdec]; rfl)) hclass
  | _ => cases hresponse

/-- The issuer is not asked and no route is there. -/
theorem Routed.untouched {x : Handling} {seen : Seen} {op : Op} (h : Routed x seen op)
    (hclass : x.destination ≠ .development) : op.route? = none ∧ seen.issuerCalled = false := by
  have hissuer : seen.issuerCalled = false :=
    Bool.eq_false_iff.mpr fun hcalled => hclass (h.issuer hcalled)
  refine ⟨?_, hissuer⟩
  cases hroute : op.route? with
  | none => rfl
  | some route =>
      refine absurd (h.issues ?_) (by simp [hissuer])
      cases op <;> first | exact (congrArg Option.isSome hroute : _ = true) | rfl

/-! ## Breakpoints -/

/-- Every breakpoint is of a Development exchange. -/
def Engine.BreaksDevelopment (s : Engine) : Prop :=
  ∀ id k, (id, k) ∈ s.shared.breakpoints → (id, .development) ∈ s.registry

theorem Engine.registry_step {crypto : Crypto} {s s' : Engine} {e : Event}
    (hstep : s.step crypto e = some s') : s.registry <+: s'.registry := by
  obtain ⟨sec, p, hmoved, -, hparties⟩ := step_cases hstep
  rw [hparties, Parties.log_registry, hmoved.registry]
  exact List.prefix_append ..

theorem Engine.BreaksDevelopment.step {crypto : Crypto} {s s' : Engine} {e : Event}
    (hc : s.Consistent) (h : s.BreaksDevelopment) (hstep : s.step crypto e = some s') :
    s'.BreaksDevelopment := by
  obtain ⟨sec, p, hmoved, hshared, -⟩ := step_cases hstep
  intro id k hkey
  rw [hshared] at hkey
  refine (registry_step hstep).subset ?_
  rcases State.mem_apply_breakpoints hkey with ⟨hold, -⟩ | ⟨status, rfl⟩
  · exact h id k hold
  · obtain ⟨t, _, x, _, _, -, ht, -, rfl, hpc, -, -, hmodify⟩ := hmoved.opens
    have hmem := List.mem_of_getElem? ht
    have hserves : Serves t x.id x.destination := ⟨x, _, _, hpc, rfl, rfl⟩
    have hserved := hc.served t hmem _ _ hserves
    rwa [((hc.canModify hmem hserves).mp hmodify).2] at hserved

theorem Engine.breaksDevelopment {crypto : Crypto} {s : Engine}
    (h : (engine crypto).Reachable s) : s.BreaksDevelopment :=
  h.invariant_along (fun _ _ hkey => nomatch hkey)
    fun hr hs _ hstep => hs.step (consistent hr) hstep

/-! ## Runs -/

/-- Exchanges stay in the log, with their classes. -/
theorem Engine.registry_run {crypto : Crypto} :
    ∀ {es : List Event} {s t : Engine}, (engine crypto).runFrom s es = some t →
      s.registry <+: t.registry := by
  intro es
  induction es with
  | nil =>
      intro s t hrun
      exact Option.some.inj hrun ▸ List.prefix_refl _
  | cons e es ih =>
      intro s t hrun
      obtain ⟨u, hstep, hrest⟩ := Option.bind_eq_some_iff.mp hrun
      exact (registry_step (show s.step crypto e = some u from hstep)).trans (ih hrest)

/-- A state reached from a reached one is reached. -/
theorem Engine.reachable_run {crypto : Crypto} {s t : Engine} {es : List Event}
    (h : (engine crypto).Reachable s) (hrun : (engine crypto).runFrom s es = some t) :
    (engine crypto).Reachable t :=
  h.runFrom (Machine.meets_true es s) hrun

/-! ## The result -/

/-- What holds of the exchange with this id, of a class other than Development. -/
structure Engine.Spared (s : Engine) (id : Nat) : Prop where
  /-- The client gets the upstream's response as it is. -/
  response : ∀ t ∈ s.tasks, ∀ x response todo, t.pc = .serving x (.returned response) todo →
    x.id = id → ∃ upstream, t.seen.upstream = some upstream ∧ response = upstream.unmodified
  /-- It has no breakpoint. -/
  breakpoint : ∀ k, (id, k) ∉ s.shared.breakpoints
  /-- Its tunnel has no interception route, and the leaf issuer has not been called. -/
  tunnel : ∀ t ∈ s.tasks, ∀ x op todo, t.pc = .serving x op todo → x.id = id →
    op.route? = none ∧ t.seen.issuerCalled = false

/-- **Production is read-only**: in every reachable state, whatever came before, exchanges
that began with another class than Development are spared; a replay to such a destination is
answered 403 and never forwarded; the class is that of the host that is connected to, and no
capture's class ever changes. -/
theorem production_is_only_forwarded {crypto : Crypto} {s : Engine}
    (h : (engine crypto).Reachable s) :
    (∀ x ∈ s.exchanges, x.destination ≠ .development → s.Spared x.id) ∧
    (∀ t ∈ s.tasks, t.seen.replayed = true → ∀ destination,
      t.seen.destination = some destination → destination ≠ .development →
      t.seen.sent = none ∧ t.seen.upstream = none ∧
        (t.pc = .gone ∨ t.pc = .answered replayForbidden ∨
          ∃ request clientProfileId replay classifier,
            t.pc = .classified request clientProfileId replay destination classifier)) ∧
    (∀ t ∈ s.tasks, ∀ x op todo, t.pc = .serving x op todo →
      (x.id, x.destination) ∈ s.registry ∧
      ∀ host, t.seen.dialed = some host → x.destination = x.classifier.classify host) ∧
    ∀ es s', (engine crypto).runFrom s es = some s' →
      ∀ c ∈ s.shared.traffic, ∀ c' ∈ s'.shared.traffic, c'.id = c.id →
        c'.destinationClass = c.destinationClass := by
  have hc := Engine.consistent h
  have htold := Engine.told h
  have hclass {t : Task} (ht : t ∈ s.tasks) {x : Handling} {op : Op} {todo : List Errand}
      (hpc : t.pc = .serving x op todo) : (x.id, x.destination) ∈ s.registry :=
    hc.served t ht _ _ ⟨x, op, todo, hpc, rfl, rfl⟩
  refine ⟨fun b hb hother => ?_, fun t ht hreplayed destination hdestination hother => ?_,
    fun t ht x op todo hpc => ⟨hclass ht hpc, fun host hdialed => ?_⟩,
    fun es s' hrun c hcapture c' hcapture' hid => ?_⟩
  · have hbegun : (b.id, b.destination) ∈ s.registry := List.mem_map_of_mem hb
    have hsame {t : Task} (ht : t ∈ s.tasks) {x : Handling} {op : Op} {todo : List Errand}
        (hpc : t.pc = .serving x op todo) (hid : x.id = b.id) : x.destination ≠ .development := by
      rwa [hc.class_unique (hclass ht hpc) (hid ▸ hbegun)]
    exact {
      response := fun t ht x response todo hpc hid =>
        ((htold t ht).of_serving hpc).2.2.response (hsame ht hpc hid) rfl
      breakpoint := fun k hkey =>
        hother (hc.class_unique hbegun (Engine.breaksDevelopment h _ k hkey))
      tunnel := fun t ht x op todo hpc hid =>
        ((htold t ht).of_serving hpc).2.1.untouched (hsame ht hpc hid) }
  · obtain ⟨hsent, hupstream⟩ := (htold t ht).replays hreplayed destination hdestination hother
    refine ⟨hsent, hupstream, ?_⟩
    have htold := htold t ht
    rw [Task.Told] at htold
    generalize hseen : t.seen = seen at htold hreplayed hdestination
    generalize t.pc = pc at htold ⊢
    cases htold with
    | connected hnothing => rw [hnothing] at hreplayed; cases hreplayed
    | arrived hnothing => rw [hnothing] at hreplayed; cases hreplayed
    | admitted hnothing => rw [hnothing] at hdestination; cases hdestination
    | classified hnothing =>
        rw [hnothing] at hdestination
        cases hdestination
        exact .inr (.inr ⟨_, _, _, _, rfl⟩)
    | unauthorized hnone => cases hnone.symm.trans hreplayed
    | forbidden => exact .inr (.inl rfl)
    | serving hclassed =>
        cases hclassed.noted.symm.trans hdestination
        exact absurd (hclassed.replayed hreplayed) hother
    | gone => exact .inl rfl
  · obtain ⟨hclassed, hrouted, -⟩ := (htold t ht).of_serving hpc
    rw [hrouted.dialed host hdialed]
    exact hclassed.classed
  · have hcaptured := (Engine.registry_run hrun).subset (hc.captured c hcapture)
    have hcaptured' := (Engine.consistent (Engine.reachable_run h hrun)).captured c' hcapture'
    exact (Engine.consistent (Engine.reachable_run h hrun)).class_unique (hid ▸ hcaptured') hcaptured

/-- A configuration with a rule and breakpoints, and a host marked Production. -/
def guarding : ProxyConfig :=
  { mocking with breakOnResponses := true, productionHosts := ["localhost".toList] }

/-- A request to that host, up to the return of its response. -/
def guarded : List Event :=
  starting guarding ++ [.accept] ++
    answers 0 (untilSent (plainGet localhost) ++
      [.go, .upstream (some ⟨200, [], false, [104, 105]⟩), .go, .go, .go, .go, .recorded none, .go, .go])

theorem guarded_response_is_unmodified :
    (((engine .unused).run guarded).get (by decide)).Spared 1 :=
  (production_is_only_forwarded (Machine.reachable_get (m := engine .unused) guarded
    (by decide))).1 ⟨⟨1, 0⟩, .production, false, []⟩ (by decide) (by decide)

example : (((engine .unused).run guarded).map fun s => s.tasks.map fun t =>
    match t.pc with
    | .serving _ op _ => op.response?
    | _ => none) = some [some ⟨200, [], .upstream⟩] := by decide

end SippinSoda
