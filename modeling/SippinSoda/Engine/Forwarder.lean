import SippinSoda.Engine.History
import SippinSoda.Engine.Pauses

/-!
# What the forwarder of an exchange writes

Most fields of a capture are written by one task alone: the one that forwards its exchange.

* **own** — the changes that only that task makes;
* **Owned** — no other party has one of them queued;
* **forwarded** — so what that task keeps of its capture, and what the other changes leave
  alone, holds in every reachable state.
-/

namespace SippinSoda

/-! ## Own changes -/

/-- An operation that gives its exchange up only finishes it. -/
theorem own_tunnelStep {proxy : SocketAddr} {tls : Option ProxyTlsInterception} {x : Handling}
    {seen : Seen} {op : Op} {a : Answer} {m : Move} (h : tunnelStep proxy tls x seen op a = some m)
    (hands : m.op.hands = false) : ∀ errand ∈ m.todo, errand.own = false := by
  have hfinish := own_finish x.toExchange
  unfold tunnelStep at h
  split at h
  -- establishing
  · split at h
    · cases h
      cases hands
    · split at h <;> cases h <;> cases hands
  -- preparing
  · split at h <;> cases h <;> cases hands
  -- dialing
  · simp only at h
    split at h <;> cases h <;> cases hands
  -- upgrading
  · split at h
    · cases h
      exact hfinish _
    · split at h <;> cases h <;> cases hands
  -- securing
  · split at h <;> cases h
    · cases hands
    · exact hfinish _
  -- serving
  · cases h
    exact hfinish _
  -- copying
  · split at h <;> cases h
    cases hands
  · cases h
    exact hfinish _
  · cases h

theorem hands_sendStep {proxy : SocketAddr} {http2 : Bool} {s : State} {x : Handling}
    {seen : Seen} {op : Op} {a : Answer} {m : Move}
    (h : sendStep proxy http2 s x seen op a = some m) : m.op.hands = true := by
  unfold sendStep at h
  split at h
  -- forwarding
  · split at h <;> cases h <;> rfl
  -- connecting
  · simp only at h
    split at h
    · cases h
      rfl
    · split at h <;> cases h <;> rfl
  -- intercepting
  · split at h <;> cases h <;> rfl
  -- acquiring and rewriting
  · cases h
    rfl
  · cases h
    rfl
  -- sending
  · split at h <;> cases h <;> rfl
  · cases h

theorem Op.hands_of_response {op : Op} {response : Response} (h : op.response? = some response) :
    op.hands = true := by
  cases op <;> first | rfl | cases h

/-- An operation that has given its exchange up writes nothing at once. -/
theorem act_of_step {proxy : SocketAddr} {tls : Option ProxyTlsInterception} {http2 : Bool}
    {s : State} {x : Handling} {seen : Seen} {op : Op} {a : Answer} {m : Move}
    (h : op.step proxy tls http2 s x seen a = some m) (hands : op.hands = false) :
    m.act = .nothing := by
  cases op with
  | serving authority route http2 first =>
      cases a <;> cases h
      rfl
  | ended => cases a <;> cases h
  | _ => cases hands

theorem own_step {proxy : SocketAddr} {tls : Option ProxyTlsInterception} {http2 : Bool}
    {s : State} {x : Handling} {seen : Seen} {op : Op} {a : Answer} {m : Move}
    (h : op.step proxy tls http2 s x seen a = some m) (hands : m.op.hands = false) :
    ∀ errand ∈ m.todo, errand.own = false := by
  unfold Op.step at h
  split at h
  next htunnel =>
    cases h
    exact own_tunnelStep htunnel hands
  next =>
    split at h
    next hsend =>
      cases h
      rw [hands_sendStep hsend] at hands
      cases hands
    next =>
      exfalso
      cases answered_of_step h with
      | shaped upstream draft op c hop => rcases hop with rfl | rfl <;> cases hands
      | onward op op' a response todo hop hop' =>
          exact absurd hands (by simp [Op.hands_of_response hop'])
      | _ => cases hands

theorem body_tunnelStep {proxy : SocketAddr} {tls : Option ProxyTlsInterception} {x : Handling}
    {seen : Seen} {op : Op} {a : Answer} {m : Move}
    (h : tunnelStep proxy tls x seen op a = some m) : m.body = none := by
  unfold tunnelStep at h
  split at h
  all_goals try simp only at h
  all_goals repeat' split at h
  all_goals cases h
  all_goals rfl

/-- The request body comes with the rewritten request, and has met nothing. -/
theorem body_sendStep {proxy : SocketAddr} {http2 : Bool} {s : State} {x : Handling}
    {seen : Seen} {op : Op} {a : Answer} {m : Move}
    (h : sendStep proxy http2 s x seen op a = some m) {party : BodyParty}
    (hbody : m.body = some party) :
    ∃ authority, op = .rewriting authority ∧ party = {
      exchange := x.toExchange
      body := RequestBody.new s.captureBodies (!x.request.bodyEnded)
        (requestContentType (upstreamRequest http2 authority x.request)) s.requestRedactionPaths
      todo := [], stores := [] } := by
  unfold sendStep at h
  split at h
  case h_5 =>
    cases h
    cases hbody
    exact ⟨_, rfl, rfl⟩
  all_goals try simp only at h
  all_goals repeat' split at h
  all_goals cases h
  all_goals cases hbody

theorem body_of_step {proxy : SocketAddr} {tls : Option ProxyTlsInterception} {http2 : Bool}
    {s : State} {x : Handling} {seen : Seen} {op : Op} {a : Answer} {m : Move}
    (h : op.step proxy tls http2 s x seen a = some m) {party : BodyParty}
    (hbody : m.body = some party) :
    ∃ authority, op = .rewriting authority ∧ party = {
      exchange := x.toExchange
      body := RequestBody.new s.captureBodies (!x.request.bodyEnded)
        (requestContentType (upstreamRequest http2 authority x.request)) s.requestRedactionPaths
      todo := [], stores := [] } := by
  unfold Op.step at h
  split at h
  next htunnel =>
    cases h
    rw [body_tunnelStep htunnel] at hbody
    cases hbody
  next =>
    split at h
    next hsend =>
      cases h
      exact body_sendStep hsend hbody
    next => cases answered_of_step h <;> cases hbody

/-! ## Nobody else has them queued -/

/-- The own changes that are queued are queued by the forwarder of the exchange. -/
structure Engine.Owned (s : Engine) : Prop where
  handed : ∀ t ∈ s.tasks, ∀ x op todo, t.pc = .serving x op todo → op.hands = false →
    ∀ errand ∈ todo, errand.own = false
  bodies : ∀ t ∈ s.tasks, ∀ party, t.body = some party → ∀ errand ∈ party.todo, errand.own = false
  exchanges : ∀ x ∈ s.exchanges, ∀ errand ∈ x.todo, errand.own = false

theorem Engine.owned_default : Engine.default.Owned where
  handed _ h := absurd h List.not_mem_nil
  bodies _ h := absurd h List.not_mem_nil
  exchanges _ h := absurd h List.not_mem_nil

theorem BodyEffect.own_errands {x : Exchange} {effect : BodyEffect} :
    ∀ errand ∈ effect.errands x, errand.own = false := by
  cases effect with
  | finish message => exact own_finish x _
  | requestBytes count => simp [BodyEffect.errands, Errand.own, Change.own]
  | requestBodyError message => simp [BodyEffect.errands, Errand.own, Change.own]
  | store bytes => simp [BodyEffect.errands]

theorem BodyParty.own_step {party : BodyParty} {a : BodyAnswer} {move : BodyMove}
    (h : party.step a = some move) (hold : ∀ errand ∈ party.todo, errand.own = false)
    {party' : BodyParty} (hparty' : move.party = some party') :
    ∀ errand ∈ party'.todo, errand.own = false := by
  unfold BodyParty.step at h
  split at h <;> cases h <;> cases hparty'
  next htodo =>
    intro errand herrand
    exact hold errand (htodo ▸ List.mem_cons_of_mem _ herrand)
  next htodo _ => exact fun errand herrand => hold errand (htodo ▸ herrand)
  next =>
    intro errand herrand
    obtain ⟨effect, -, herrand⟩ := List.mem_flatMap.mp herrand
    exact BodyEffect.own_errands errand herrand

theorem Task.Moved.handed {s : State} {now k : Nat} {t t' : Task} {a : Answer} {sec : Section}
    (h : t.Moved s now k a sec t')
    (hold : ∀ x op todo, t.pc = .serving x op todo → op.hands = false →
      ∀ errand ∈ todo, errand.own = false) {x : Handling} {op : Op} {todo : List Errand}
    (hpc' : t'.pc = .serving x op todo) (hands : op.hands = false) :
    ∀ errand ∈ todo, errand.own = false := by
  cases h with
  | errand hpc =>
      cases hpc'
      intro errand herrand
      exact hold _ _ _ hpc hands errand (List.mem_cons_of_mem _ herrand)
  | deadline hpc =>
      cases hpc'
      cases hands
  | asked hpc hstep =>
      cases hpc'
      exact own_step hstep hands
  | answered hpc hanswered =>
      cases hpc'
      cases hanswered with
      | shaped upstream draft op c hop => rcases hop with rfl | rfl <;> cases hands
      | onward op op' a response todo hop hop' =>
          exact absurd hands (by simp [Op.hands_of_response hop'])
      | _ => cases hands
  | begin hpc =>
      cases hpc'
      simp
  | _ => cases hpc'

theorem Task.Moved.bodies {s : State} {now k : Nat} {t t' : Task} {a : Answer} {sec : Section}
    (h : t.Moved s now k a sec t')
    (hold : ∀ party, t.body = some party → ∀ errand ∈ party.todo, errand.own = false)
    {party : BodyParty} (hbody : t'.body = some party) :
    ∀ errand ∈ party.todo, errand.own = false := by
  cases h with
  | asked hpc hstep =>
      simp only [Task.after] at hbody
      split at hbody
      next hnew =>
        cases hbody
        obtain ⟨authority, -, rfl⟩ := body_of_step hstep hnew
        simp
      next => exact hold party hbody
  | answered hpc hanswered =>
      have hsame : t.body = some party := by
        cases hanswered <;> exact hbody
      exact hold party hsame
  | _ => exact hold party hbody

theorem Engine.Owned.step {crypto : Crypto} {s s' : Engine} {e : Event} (h : s.Owned)
    (hstep : s.step crypto e = some s') : s'.Owned := by
  obtain ⟨sec, p, hmoved, -, hparties⟩ := step_cases hstep
  refine ⟨fun t' ht' x op todo hpc' hands => ?_, fun t' ht' party hbody => ?_, fun x' hx' => ?_⟩
  · rw [hparties, Parties.log_tasks] at ht'
    obtain ⟨i, hi⟩ := List.mem_iff_getElem?.mp ht'
    rcases hmoved.came hi with ⟨t, ht, hbecame⟩ | ⟨-, harrives⟩
    · have hold := h.handed t (List.mem_of_getElem? ht)
      cases hbecame with
      | stays => exact hold x op todo hpc' hands
      | moves hallows hm => exact hm.handed hold hpc' hands
      | polls => exact hold x op todo hpc' hands
      | hands hpc =>
          cases hpc'
          simp
      | receives hresolver hreceive =>
          rw [Task.receive] at hreceive
          split at hreceive <;> cases hreceive
          cases hpc'
          cases hands
    · cases harrives <;> cases hpc'
      all_goals simp
  · rw [hparties, Parties.log_tasks] at ht'
    obtain ⟨i, hi⟩ := List.mem_iff_getElem?.mp ht'
    rcases hmoved.came hi with ⟨t, ht, hbecame⟩ | ⟨-, harrives⟩
    · have hold := h.bodies t (List.mem_of_getElem? ht)
      cases hbecame with
      | stays => exact hold party hbody
      | moves hallows hm => exact hm.bodies hold hbody
      | polls hparty hpoll _ => exact BodyParty.own_step hpoll (hold _ hparty) hbody
      | hands hpc => exact hold party hbody
      | receives hresolver hreceive =>
          rw [Task.receive] at hreceive
          split at hreceive <;> cases hreceive
          exact hold party hbody
    · cases harrives <;> cases hbody
  · rw [hparties] at hx'
    have hx : x' ∈ p.exchanges ∨ x'.todo = [] := by
      cases sec with
      | begin request destination clientProfileId replayOf =>
          rcases List.mem_append.mp hx' with hx' | hx'
          · exact .inl hx'
          · exact .inr (by rw [List.mem_singleton.mp hx'])
      | _ => exact .inl hx'
    rcases hx with hx | hnil
    · cases hmoved with
      | lifecycle hlife => exact h.exchanges x' ((outlives_lifecycle hlife).exchanges ▸ hx)
      | dropExchange hk hheld =>
          rcases List.mem_or_eq_of_mem_set hx with hx | rfl
          · exact h.exchanges x' hx
          · exact own_finish _ _
      | exchange hk hcons =>
          rcases List.mem_or_eq_of_mem_set hx with hx | rfl
          · exact h.exchanges x' hx
          · intro errand herrand
            exact h.exchanges _ (List.mem_of_getElem? hk) errand
              (hcons ▸ List.mem_cons_of_mem _ herrand)
      | _ => exact h.exchanges x' hx
    · simp [hnil]

/-- In every reachable state own changes are queued by forwarders alone. -/
theorem Engine.owned {crypto : Crypto} {s : Engine} (h : (engine crypto).Reachable s) : s.Owned :=
  h.invariant owned_default fun hs _ hstep => hs.step hstep

/-- **An own change is made by the forwarder of the exchange.** -/
theorem Engine.Moved.own {s : Engine} {e : Event} {p : Parties} {id : Nat} {change : Change}
    (h : s.Moved e (.update id change) p) (ho : s.Owned) (hown : change.own = true) :
    ∃ k a t t', e = .task k a ∧ s.tasks[k]? = some t ∧ p.tasks[k]? = some t' ∧
      t.Moved s.shared s.clock k a (.update id change) t' ∧ t.forwards? = some id := by
  generalize hsec : Section.update id change = sec at h
  have hqueued {errand : Errand} {id' : Nat} (heq : Section.update id change = errand.section id')
      (hnot : errand.own = false) : False := by
    cases errand with
    | change c =>
        cases heq
        exact absurd hown (by simpa [Errand.own] using hnot)
    | announce => cases heq
    | removeBody => cases heq
  cases h with
  | lifecycle hlife =>
      rcases (outlives_lifecycle hlife).sec with rfl | ⟨settings, address, rfl⟩ | rfl | rfl <;>
        cases hsec
  | task ht hallows hmoved =>
      rename_i k a t t'
      have hlt := (List.getElem?_eq_some_iff.mp ht).1
      refine ⟨k, a, t, t', rfl, ht, by simp [hlt], hmoved, ?_⟩
      have hforwards {x : Handling} {op : Op} {todo : List Errand} (hpc : t.pc = .serving x op todo)
          (hands : op.hands = true) : t.forwards? = some x.id :=
        Task.at?_eq_some.mpr ⟨x, op, todo, hpc, hands, rfl⟩
      cases hmoved with
      | errand hpc =>
          rename_i x op errand todo
          have hid : x.id = id := by
            cases errand <;> cases hsec
            rfl
          cases hands : op.hands with
          | true => exact hid ▸ hforwards hpc hands
          | false =>
              exact (hqueued hsec (ho.handed t (List.mem_of_getElem? ht) _ _ _ hpc hands _
                List.mem_cons_self)).elim
      | asked hpc hstep hasked =>
          rename_i x op m
          have hid : x.id = id := by
            cases hact : m.act <;> rw [hact] at hsec <;> cases hsec
            rfl
          cases hands : op.hands with
          | true => exact hid ▸ hforwards hpc hands
          | false =>
              rw [act_of_step hstep hands] at hsec
              cases hsec
      | answered hpc hanswered =>
          rename_i x op m
          have hid : x.id = id := by
            cases hact : m.act <;> rw [hact] at hsec <;> cases hsec
            rfl
          exact hid ▸ hforwards hpc hanswered.hands
      | admits _ hpc hsec' => rcases hsec' with rfl | ⟨token, rfl⟩ <;> cases hsec
      | unauthorized hpc hsec' => rcases hsec' with rfl | ⟨token, rfl⟩ <;> cases hsec
      | _ => cases hsec
  | body ht hbody hstep =>
      unfold BodyParty.step at hstep
      split at hstep <;> cases hstep
      next htodo =>
        exact (hqueued hsec (ho.bodies _ (List.mem_of_getElem? ht) _ hbody _
          (htodo ▸ List.mem_cons_self))).elim
      all_goals cases hsec
  | store hk hstep =>
      unfold StoreTask.step at hstep
      simp only at hstep
      split at hstep <;> cases hstep
      · split at hsec <;> cases hsec
      all_goals cases hsec
      all_goals cases hown
  | exchange hx htodo =>
      exact (hqueued hsec (ho.exchanges _ (List.mem_of_getElem? hx) _
        (htodo ▸ List.mem_cons_self))).elim
  | _ => cases hsec

/-! ## What the forwarder keeps -/

/-- What a section makes of a capture. -/
def Section.onCapture (now : Nat) (c : Capture) : Section → Capture
  | .update id change => if id = c.id then c.apply now change else c
  | .openBreakpoint id _ status => if id = c.id then c.pause status else c
  | _ => c

theorem Section.onCapture_update (now : Nat) (c : Capture) (change : Change) :
    (Section.update c.id change).onCapture now c = c.apply now change := if_pos rfl

theorem Section.onCapture_update_of_ne {now id : Nat} {c : Capture} {change : Change}
    (h : id ≠ c.id) : (Section.update id change).onCapture now c = c := if_neg h

theorem Section.onCapture_openBreakpoint (now : Nat) (c : Capture) (task status : Nat) :
    (Section.openBreakpoint c.id task status).onCapture now c = c.pause status := if_pos rfl

theorem Section.onCapture_openBreakpoint_of_ne {now id task status : Nat} {c : Capture}
    (h : id ≠ c.id) : (Section.openBreakpoint id task status).onCapture now c = c := if_neg h

/-- A capture found after a section is a capture that was there, as the section leaves it, or
is new. -/
theorem State.Ordered.mem_apply_onCapture {s : State} (h : s.Ordered) {now : Nat} {sec : Section}
    {c' : Capture} (hc : c' ∈ (s.apply now sec).traffic) :
    (∃ c ∈ s.traffic, c.id = c'.id ∧ c' = sec.onCapture now c) ∨
      ∃ request destination clientProfileId replayOf,
        sec = .begin request destination clientProfileId replayOf ∧
        c' = Capture.new now s.nextId request destination clientProfileId replayOf := by
  rcases h.mem_apply hc with ⟨hmem, hupdate, hopen⟩ | ⟨c, hmem, change, rfl, rfl⟩ |
    ⟨c, hmem, task, status, rfl, rfl⟩ | hnew
  · refine .inl ⟨c', hmem, rfl, ?_⟩
    cases sec with
    | update id change => exact (if_neg fun heq => hupdate change (by rw [heq])).symm
    | openBreakpoint id task status => exact (if_neg fun heq => hopen task status (by rw [heq])).symm
    | _ => rfl
  · exact .inl ⟨c, hmem, (c.apply_id now change).symm, (if_pos rfl).symm⟩
  · exact .inl ⟨c, hmem, rfl, (if_pos rfl).symm⟩
  · exact .inr hnew

/-- A task that begins an exchange is where a forwarder starts. -/
theorem Task.Moved.begins {s : State} {now k : Nat} {t t' : Task} {a : Answer} {sec : Section}
    (h : t.Moved s now k a sec t') {destination : DestinationClass}
    (hsec : sec.begins = some destination) :
    ∃ x op, t'.pc = .serving x op [] ∧ x.id = s.nextId ∧ op.early = true ∧ op.opening = true := by
  cases h with
  | errand hpc =>
      rename_i errand _
      cases errand <;> cases hsec
  | asked hpc hstep hasked => rename_i m; cases hact : m.act <;> rw [hact] at hsec <;> cases hsec
  | answered hpc hanswered => rename_i m; cases hact : m.act <;> rw [hact] at hsec <;> cases hsec
  | admits _ hpc hsec' => rcases hsec' with rfl | ⟨token, rfl⟩ <;> cases hsec
  | unauthorized hpc hsec' => rcases hsec' with rfl | ⟨token, rfl⟩ <;> cases hsec
  | begin hpc hreplay =>
      refine ⟨_, _, rfl, rfl, ?_⟩
      split <;> exact ⟨rfl, rfl⟩
  | _ => cases hsec

theorem Engine.Became.begins {s : Engine} {e : Event} {sec : Section} {i : Nat} {t t' : Task}
    (h : s.Became e sec i t t') {destination : DestinationClass}
    (hsec : sec.begins = some destination) :
    t' = t ∨ ∃ a, t.Moved s.shared s.clock i a sec t' := by
  cases h with
  | stays => exact .inl rfl
  | moves hallows hm => exact .inr ⟨_, hm⟩
  | polls hbody hstep _ =>
      unfold BodyParty.step at hstep
      split at hstep <;> cases hstep
      next errand _ _ => cases errand <;> cases hsec
      all_goals cases hsec
  | hands => cases hsec
  | receives => cases hsec

/-- There is no decision before the upstream has answered. -/
theorem Drafted.undecided {http2 : Bool} {x : Handling} {seen : Seen} {op : Op}
    (h : Drafted http2 x seen op) (hearly : op.early = true) : seen.decision = none := by
  cases h with
  | early _ hdecision => exact hdecision
  | returning hresponse => cases (Op.response?_of_early hearly).symm.trans hresponse
  | _ => cases hearly

/-- What the forwarder of an exchange keeps of its capture: it holds of a new exchange and
capture, every step of the task keeps it, and so does every change that is not the task's own. -/
structure Kept (Q : Task → Capture → Prop) : Prop where
  begins : ∀ {t x op id now request destination clientProfileId replayOf},
    t.pc = .serving x op [] → x.id = id → op.early = true → op.opening = true →
    t.seen.decision = none →
    Q t (Capture.new now id request destination clientProfileId replayOf)
  moves : ∀ {s now k t t' a sec c}, t.Moved s now k a sec t' → t.Told → c ∈ s.traffic →
    t.forwards? = some c.id → t'.forwards? = some c.id → Q t c → Q t' (sec.onCapture now c)
  others : ∀ {t c now change}, change.own = false → Q t c → Q t (c.apply now change)
  polls : ∀ {t c party}, Q t c → Q { t with body := party } c
  receives : ∀ {t t' decision c}, t.receive decision = some t' → Q t c → Q t' c
  /-- The first request in a tunnel takes the exchange over. -/
  inner : ∀ {t x authority route http2 c}, t.pc = .serving x (.serving authority route http2 true) [] →
    Q t c → ∀ k request, Q (t.inner k authority http2 { x with request, replay := none }) c

/-- The property holds of every forwarder and the capture of its exchange. -/
def Engine.Forwards (Q : Task → Capture → Prop) (s : Engine) : Prop :=
  ∀ t ∈ s.tasks, ∀ c ∈ s.shared.traffic, t.forwards? = some c.id → Q t c

theorem Engine.Forwards.step {Q : Task → Capture → Prop} (hQ : Kept Q) {crypto : Crypto}
    {s s' : Engine} {e : Event} (hr : (engine crypto).Reachable s) (h : s.Forwards Q)
    (hstep : s.step crypto e = some s') : s'.Forwards Q := by
  obtain ⟨sec, p, hmoved, hshared, hparties⟩ := step_cases hstep
  intro t' ht' c' hc' hid
  rw [hparties, Parties.log_tasks] at ht'
  rw [hshared] at hc'
  have hc := consistent hr
  have hold {c : Capture} (hmem : c ∈ s.shared.traffic) : c.id < s.shared.nextId :=
    hc.fresh _ (hc.captured c hmem)
  obtain ⟨i, hi⟩ := List.mem_iff_getElem?.mp ht'
  rcases hmoved.came hi with ⟨t, ht, hbecame⟩ | ⟨-, harrives⟩
  · have hmem := List.mem_of_getElem? ht
    rcases hc.ordered.mem_apply_onCapture hc' with ⟨c, hcmem, hcid, rfl⟩ |
      ⟨request, destination, clientProfileId, replayOf, rfl, rfl⟩
    · rw [← hcid] at hid
      -- a step of the forwarder itself
      have moves {a : Answer} {u : Task} (hm : t.Moved s.shared s.clock i a sec u)
          (hu : u.forwards? = some c.id) : Q u (sec.onCapture s.clock c) := by
        rcases hm.at Op.initial_hands hu with hforwards | heq
        · exact hQ.moves hm (told hr t hmem) hcmem hforwards hu (h t hmem c hcmem hforwards)
        · exact absurd (hold hcmem) (by omega)
      -- a step of another party, on the capture or not
      have aside (hforwards : t.forwards? = some c.id) (hQt' : Q t' c) :
          Q t' (sec.onCapture s.clock c) := by
        have mover {k : Nat} {a : Answer} {u u' : Task} (hk : s.tasks[k]? = some u)
            (hk' : p.tasks[k]? = some u') (hm : u.Moved s.shared s.clock k a sec u')
            (hu : u.forwards? = some c.id) : Q t' (sec.onCapture s.clock c) := by
          obtain rfl := single hr ht hk hforwards hu
          cases ht.symm.trans hk
          cases hi.symm.trans hk'
          exact moves hm hid
        cases sec with
        | update id change =>
            by_cases heq : id = c.id
            · subst heq
              cases hown : change.own with
              | false =>
                  rw [Section.onCapture_update]
                  exact hQ.others hown hQt'
              | true =>
                  obtain ⟨k, a, u, u', -, hk, hk', hm, hu⟩ := hmoved.own (owned hr) hown
                  exact mover hk hk' hm hu
            · rw [Section.onCapture_update_of_ne heq]
              exact hQt'
        | openBreakpoint id task status =>
            by_cases heq : id = c.id
            · subst heq
              obtain ⟨u, u', x, upstream, draft, he, hk, hk', hx, hpc, -⟩ := hmoved.opens
              rcases hmoved.tame with htame | ⟨k, a, v, v', he', hv, hv', hm⟩ |
                ⟨_, _, _, _, _, _, _, hstore⟩
              · cases htame
              · cases he.symm.trans he'
                cases hk.symm.trans hv
                exact mover hv hv' hm (Task.at?_eq_some.mpr ⟨x, _, _, hpc, rfl, hx⟩)
              · rcases StoreTask.step_insertRequest hstore with htame | hsec
                · cases htame
                · cases hsec
            · rw [Section.onCapture_openBreakpoint_of_ne heq]
              exact hQt'
        | _ => exact hQt'
      cases hbecame with
      | stays => exact aside hid (h _ hmem c hcmem hid)
      | moves hallows hm => exact moves hm hid
      | polls => exact aside hid (hQ.polls (h t hmem c hcmem hid))
      | hands hpc =>
          obtain ⟨y, op, todo, hpc', hands, -⟩ := Task.at?_eq_some.mp hid
          cases hpc'
          cases hands
      | receives hresolver hreceive =>
          have hforwards := Task.at_receive Op.initial_hands hreceive hid
          exact aside hforwards (hQ.receives hreceive (h t hmem c hcmem hforwards))
    · -- the capture is new, and so is the task's exchange
      have hnew : t.forwards? ≠ some s.shared.nextId := by
        intro hforwards
        obtain ⟨destination, hserves⟩ := Task.serves_of_at hforwards
        exact absurd (hc.fresh _ (hc.served t hmem _ _ hserves)) (Nat.lt_irrefl _)
      rcases hbecame.begins rfl with rfl | ⟨a, hm⟩
      · exact absurd hid hnew
      · obtain ⟨x, op, hpc, hx, hearly, hop⟩ := hm.begins rfl
        have hmem' : t' ∈ s'.tasks := by
          rw [hparties, Parties.log_tasks]
          exact ht'
        obtain ⟨-, -, hdrafted⟩ := (told (.step hr trivial hstep) t' hmem').of_serving hpc
        exact hQ.begins hpc hx hearly hop (hdrafted.undecided hearly)
  · cases harrives with
    | connection => cases hid
    | innerFirst hk hpc =>
        rcases hc.ordered.mem_apply_onCapture hc' with ⟨c, hcmem, -, heq⟩ | ⟨_, _, _, _, hsec, -⟩
        · obtain rfl : c' = c := heq
          refine hQ.inner hpc (h _ (List.mem_of_getElem? hk) c' hcmem ?_) _ _
          exact Task.at?_eq_some.mpr ⟨_, _, _, hpc, rfl, Option.some.inj hid⟩
        · cases hsec
    | innerNext hk hpc =>
        rcases hc.ordered.mem_apply_onCapture hc' with ⟨c, hcmem, hcid, -⟩ |
          ⟨request, destination, clientProfileId, replayOf, -, rfl⟩
        · have hid : s.shared.nextId = c'.id := Option.some.inj hid
          exact absurd (hold hcmem) (by omega)
        · exact hQ.begins rfl rfl rfl rfl rfl

/-- **What forwarders keep of their captures** holds in every reachable state. -/
theorem Engine.forwarded {Q : Task → Capture → Prop} (hQ : Kept Q) {crypto : Crypto} {s : Engine}
    (h : (engine crypto).Reachable s) : s.Forwards Q :=
  h.invariant_along (fun _ ht => absurd ht List.not_mem_nil)
    fun hr hs _ hstep => hs.step hQ hr hstep

end SippinSoda
