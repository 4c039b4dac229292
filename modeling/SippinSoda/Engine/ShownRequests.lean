import SippinSoda.Engine.Captured
import SippinSoda.Engine.PlainRequests

/-!
# What a capture shows of its request

The request that a task receives is shown by the capture of the exchange it begins: as it came, for
a CONNECT with a kind that depends on the route alone, which the answers to the task tell.

* **Routing** — how far a route is on its way to the capture;
* **Stands** — where the task of a received request is;
* **Follows** — what the capture of its exchange shows.
-/

namespace SippinSoda

/-! ## Routes -/

/-- How far the interception route of a CONNECT is on its way to its capture. -/
inductive Routing where
  | awaited
  /-- `prepare` gave a route. -/
  | given
  /-- The upstream is connected. -/
  | dialed
  | told
  | shown
  deriving DecidableEq

/-- What an answer to the task makes of it. -/
def Routing.next (proxy : SocketAddr) : Routing → Answer → Routing
  | .awaited, .issued (some true) => .given
  | .given, .dialed lookup accepted _ =>
      match connectUpstream proxy lookup accepted with
      | .ok () => .dialed
      | .error _ => .awaited
  | .given, _ => .awaited
  | .dialed, .go => .told
  | .told, .go => .shown
  | routing, _ => routing

/-- What an event makes of it, for task `k`. -/
def Routing.after (proxy : SocketAddr) (k : Nat) (routing : Routing) : Event → Routing
  | .task i a => if i = k then routing.next proxy a else routing
  | _ => routing

theorem Routing.after_own (proxy : SocketAddr) (k : Nat) (routing : Routing) (a : Answer) :
    routing.after proxy k (.task k a) = routing.next proxy a := if_pos rfl

theorem Routing.after_of_others {proxy : SocketAddr} {k : Nat} {routing : Routing} {e : Event}
    (h : ∀ a, e ≠ .task k a) : routing.after proxy k e = routing := by
  unfold Routing.after
  split
  next i a => exact if_neg fun hi => h a (by rw [hi])
  next => rfl

/-- What is shown of a request with its route as far as that. -/
def ShownRequest.after (base : ShownRequest) : Routing → ShownRequest
  | .shown => { base with kind := .tls }
  | _ => base

/-- The operations of a CONNECT. -/
def Op.tunnels : Op → Bool
  | .establishing | .preparing _ _ | .dialing _ _ _ | .upgrading _ _ | .securing _ _
  | .serving _ _ _ _ | .copying _ => true
  | _ => false

/-- The operations in `establish`. -/
def Op.establishes : Op → Bool
  | .establishing | .preparing _ _ | .dialing _ _ _ => true
  | _ => false

/-- The operation that connects with a route. -/
def Op.routes : Op → Bool
  | .dialing _ _ (some _) => true
  | _ => false

/-- A move of an operation, as far as routes and inner targets go. -/
structure Led (op : Op) (a : Answer) (m : Move) : Prop where
  tunnels : m.op.tunnels = true → op.tunnels = true
  establishes : m.op.establishes = true → op.establishes = true
  intercepting : ∀ authority, m.op ≠ .intercepting authority
  issued : a = .issued (some true) → op.establishes = true ∧ m.todo = [] ∧
    ∃ authority port route, m.op = .dialing authority port (some route)
  routes : m.op.routes = true → a = .issued (some true)
  tells : .change .tls ∈ m.todo → op.routes = true

/-- A move to a point outside `establish` that tells of no route. -/
theorem Led.of_plain {op : Op} {a : Answer} {m : Move} (hop : m.op.tunnels = true → op.tunnels = true)
    (hestablishes : m.op.establishes = false)
    (hintercepting : ∀ authority, m.op ≠ .intercepting authority)
    (ha : a ≠ .issued (some true)) (htodo : .change .tls ∉ m.todo) : Led op a m where
  tunnels := hop
  establishes h := by rw [hestablishes] at h; cases h
  intercepting := hintercepting
  issued h := absurd h ha
  routes h := by
    generalize m.op = op' at h hestablishes
    cases op' <;> first | cases h | cases hestablishes
  tells h := absurd h htodo

theorem tls_not_mem_finish (x : Exchange) (error : Option String) :
    .change .tls ∉ x.finish error := by
  simp [Exchange.finish]

theorem led_refuse {op : Op} {a : Answer} {x : Handling} {seen : Seen} {error : ForwardError}
    (ha : a ≠ .issued (some true)) : Led op a (x.refuse seen error) :=
  .of_plain Bool.noConfusion rfl (fun _ => Op.noConfusion) ha (by simp [Handling.refuse, Exchange.finish])

theorem led_tunnel {proxy : SocketAddr} {tls : Option ProxyTlsInterception} {x : Handling}
    {seen : Seen} {op : Op} {a : Answer} {m : Move}
    (h : tunnelStep proxy tls x seen op a = some m) : Led op a m := by
  have hfinish := tls_not_mem_finish x.toExchange
  unfold tunnelStep at h
  split at h
  -- establishing
  · split at h
    · cases h
      exact led_refuse Answer.noConfusion
    · split at h
      · cases h
        exact ⟨fun _ => rfl, fun _ => rfl, fun _ => Op.noConfusion, Answer.noConfusion,
          Bool.noConfusion, fun hmem => absurd hmem List.not_mem_nil⟩
      · cases h
        exact ⟨fun _ => rfl, fun _ => rfl, fun _ => Op.noConfusion, Answer.noConfusion,
          Bool.noConfusion, fun hmem => absurd hmem List.not_mem_nil⟩
  -- preparing
  · split at h
    · cases h
      exact led_refuse (by simp)
    · cases h
      exact ⟨fun _ => rfl, fun _ => rfl, fun _ => Op.noConfusion, by simp,
          Bool.noConfusion, fun hmem => absurd hmem List.not_mem_nil⟩
    · cases h
      exact ⟨fun _ => rfl, fun _ => rfl, fun _ => Op.noConfusion, fun _ => ⟨rfl, rfl, _, _, _, rfl⟩,
          fun _ => rfl, fun hmem => absurd hmem List.not_mem_nil⟩
  -- dialing
  next authority port route lookup accepted handshake =>
    simp only at h
    split at h
    · cases h
      exact led_refuse Answer.noConfusion
    · cases h
      refine ⟨fun _ => rfl, Bool.noConfusion, fun _ => Op.noConfusion, Answer.noConfusion,
        Bool.noConfusion, fun hmem => ?_⟩
      cases route with
      | none => simp at hmem
      | some route => rfl
  -- upgrading
  · split at h
    · cases h
      exact .of_plain Bool.noConfusion rfl (fun _ => Op.noConfusion) Answer.noConfusion (hfinish _)
    · split at h
      · cases h
        exact .of_plain (fun _ => rfl) rfl (fun _ => Op.noConfusion) Answer.noConfusion List.not_mem_nil
      · cases h
        exact .of_plain (fun _ => rfl) rfl (fun _ => Op.noConfusion) Answer.noConfusion List.not_mem_nil
  -- securing
  · split at h
    · cases h
      exact .of_plain (fun _ => rfl) rfl (fun _ => Op.noConfusion) Answer.noConfusion List.not_mem_nil
    · cases h
      exact .of_plain Bool.noConfusion rfl (fun _ => Op.noConfusion) Answer.noConfusion (hfinish _)
  -- serving
  · cases h
    exact .of_plain Bool.noConfusion rfl (fun _ => Op.noConfusion) Answer.noConfusion (hfinish _)
  -- copying
  · split at h
    · cases h
    · cases h
      refine .of_plain (fun _ => rfl) rfl (fun _ => Op.noConfusion) Answer.noConfusion ?_
      simp only
      split <;> simp
  · cases h
    exact .of_plain Bool.noConfusion rfl (fun _ => Op.noConfusion) Answer.noConfusion (hfinish _)
  · cases h

theorem led_send {proxy : SocketAddr} {http2 : Bool} {s : State} {x : Handling} {seen : Seen}
    {op : Op} {a : Answer} {m : Move} (h : sendStep proxy http2 s x seen op a = some m) :
    Led op a m := by
  have onward {op op' : Op} {a : Answer} {act : Act} {todo : List Errand} {seen : Seen}
      {body : Option BodyParty} (hop : op'.tunnels = false) (hestablishes : op'.establishes = false)
      (hintercepting : ∀ authority, op' ≠ .intercepting authority)
      (ha : a ≠ .issued (some true)) (htodo : .change .tls ∉ todo) :
      Led op a { op := op', act, todo, seen, body } :=
    .of_plain (fun h => by rw [hop] at h; cases h) hestablishes hintercepting ha htodo
  unfold sendStep at h
  split at h
  -- forwarding
  · split at h
    · cases h
      exact led_refuse Answer.noConfusion
    · cases h
      exact onward rfl rfl (fun _ => Op.noConfusion) Answer.noConfusion List.not_mem_nil
  -- connecting
  · simp only at h
    split at h
    · cases h
      exact led_refuse Answer.noConfusion
    · split at h
      · cases h
        exact onward rfl rfl (fun _ => Op.noConfusion) Answer.noConfusion List.not_mem_nil
      · cases h
        exact led_refuse Answer.noConfusion
  -- intercepting
  · split at h
    · cases h
      exact led_refuse Answer.noConfusion
    · cases h
      exact onward rfl rfl (fun _ => Op.noConfusion) Answer.noConfusion (by simp)
  -- acquiring
  · cases h
    exact onward rfl rfl (fun _ => Op.noConfusion) Answer.noConfusion List.not_mem_nil
  -- rewriting
  · cases h
    refine onward rfl rfl (fun _ => Op.noConfusion) Answer.noConfusion ?_
    split_ifs <;> simp
  -- sending
  · split at h
    · cases h
      exact led_refuse Answer.noConfusion
    · cases h
      exact onward rfl rfl (fun _ => Op.noConfusion) Answer.noConfusion List.not_mem_nil
  · cases h

theorem Op.noTunnel_of_response {op : Op} {response : Response} (h : op.response? = some response) :
    op.tunnels = false ∧ op.establishes = false ∧ ∀ authority, op ≠ .intercepting authority := by
  cases op <;> first | exact ⟨rfl, rfl, fun _ => Op.noConfusion⟩ | cases h

theorem Answered.led {http2 : Bool} {s : State} {x : Handling} {seen : Seen} {op : Op} {a : Answer}
    {m : Move} (h : Answered http2 s x seen op a m) (ha : a ≠ .issued (some true)) : Led op a m := by
  have onward {op op' : Op} {a : Answer} {act : Act} {todo : List Errand} {seen : Seen}
      (hop : op'.tunnels = false ∧ op'.establishes = false ∧ ∀ authority, op' ≠ .intercepting authority)
      (ha : a ≠ .issued (some true)) (htodo : .change .tls ∉ todo) :
      Led op a { op := op', act, todo, seen } :=
    .of_plain (fun h => by rw [hop.1] at h; cases h) hop.2.1 hop.2.2 ha htodo
  cases h with
  | looked authority upstream =>
      refine onward ⟨rfl, rfl, fun _ => Op.noConfusion⟩ ha ?_
      cases s.findRule x authority with
      | none => exact List.not_mem_nil
      | some rule => simp
  | opened => exact onward ⟨rfl, rfl, fun _ => Op.noConfusion⟩ ha List.not_mem_nil
  | unopened => exact onward ⟨rfl, rfl, fun _ => Op.noConfusion⟩ ha List.not_mem_nil
  | woken => exact onward ⟨rfl, rfl, fun _ => Op.noConfusion⟩ ha (by simp)
  | shaped upstream draft op' c hop' =>
      rcases hop' with rfl | rfl
      · exact onward ⟨rfl, rfl, fun _ => Op.noConfusion⟩ ha List.not_mem_nil
      · exact onward ⟨rfl, rfl, fun _ => Op.noConfusion⟩ ha List.not_mem_nil
  | stored => exact onward ⟨rfl, rfl, fun _ => Op.noConfusion⟩ ha (tls_not_mem_finish _ _)
  | recorded => exact onward ⟨rfl, rfl, fun _ => Op.noConfusion⟩ ha List.not_mem_nil
  | checked =>
      refine onward ⟨rfl, rfl, fun _ => Op.noConfusion⟩ ha ?_
      split <;> simp
  | onward _ _ _ response todo _ hop' _ _ _ hown =>
      exact onward (Op.noTunnel_of_response hop') ha fun hmem => Bool.noConfusion (hown _ hmem)

/-- `prepare` answers nobody else. -/
theorem answerStep_issued {http2 : Bool} {s : State} {x : Handling} {seen : Seen} {op : Op}
    {result : Option Bool} : answerStep http2 s x seen op (.issued result) = none := by
  cases op with
  | returned response =>
      show (if response.body ≠ .upstream then none else none) = none
      exact ite_self none
  | _ => rfl

/-- **A move of an operation** takes it into no tunnel, and tells of a route where there is one. -/
theorem Op.step_led {proxy : SocketAddr} {tls : Option ProxyTlsInterception} {http2 : Bool}
    {s : State} {x : Handling} {seen : Seen} {op : Op} {a : Answer} {m : Move}
    (h : op.step proxy tls http2 s x seen a = some m) : Led op a m := by
  unfold Op.step at h
  split at h
  next htunnel =>
    cases h
    exact led_tunnel htunnel
  next =>
    split at h
    next hsend =>
      cases h
      exact led_send hsend
    next =>
      refine (answered_of_step h).led fun ha => ?_
      rw [ha, answerStep_issued] at h
      cases h

/-! ## Steps of a task -/

/-- The state after a step of task `k`. -/
def Engine.advanced (s : Engine) (k : Nat) (sec : Section) (t : Task) : Engine :=
  { ({ s.toParties with tasks := s.tasks.set k t } : Parties).log s.shared sec with
    shared := s.shared.apply s.clock sec }

theorem Engine.step_task {crypto : Crypto} {s s' : Engine} {k : Nat} {a : Answer}
    (h : (engine crypto).step s (.task k a) = some s') :
    ∃ t sec t', s.tasks[k]? = some t ∧ t.step crypto s.shared s.clock k a = some (sec, t') ∧
      s' = s.advanced k sec t' := by
  obtain ⟨⟨sec, p⟩, hmove, rfl⟩ := Option.map_eq_some_iff.mp h
  obtain ⟨t, t', ht, htask, rfl⟩ := Engine.move_task hmove
  exact ⟨t, sec, t', ht, htask, rfl⟩

theorem Engine.advanced_tasks {s : Engine} {k : Nat} {sec : Section} {t t' : Task}
    (ht : s.tasks[k]? = some t) : (s.advanced k sec t').tasks[k]? = some t' := by
  show (Parties.log _ s.shared sec).tasks[k]? = some t'
  rw [Parties.log_tasks]
  exact List.getElem?_set_self (List.getElem?_eq_some_iff.mp ht).1

/-! ## The task of a request -/

/-- Where an operation is, with a route as far as that. -/
inductive OnRoute (connect : Bool) : Routing → Op → List Errand → Prop
  | awaited {op todo} : (op.tunnels = true → connect = true) → op.routes = false →
      (∀ authority, op ≠ .intercepting authority) → .change .tls ∉ todo →
      OnRoute connect .awaited op todo
  | given {authority port route} : connect = true →
      OnRoute connect .given (.dialing authority port (some route)) []
  | dialed {authority route} : connect = true →
      OnRoute connect .dialed (.upgrading authority (some route))
        [.change (.status 200), .change .tls, .announce]
  | told {authority route} : connect = true →
      OnRoute connect .told (.upgrading authority (some route)) [.change .tls, .announce]
  | shown {op todo} : connect = true → op.establishes = false →
      (∀ authority, op ≠ .intercepting authority) → .change .tls ∉ todo →
      OnRoute connect .shown op todo

/-- Where the task of a client's request is, from its arrival on. -/
inductive Stands (request : Request) : Routing → Pc → Prop
  | arrived : Stands request .awaited (.arrived request)
  | admitted {clientProfileId replay} :
      Stands request .awaited (.admitted request.unmarked clientProfileId replay)
  | classified {clientProfileId replay destination classifier} :
      Stands request .awaited
        (.classified request.unmarked clientProfileId replay destination classifier)
  | answered {response} : Stands request .awaited (.answered response)
  | serving {routing x op todo} : x.request = request.unmarked →
      OnRoute request.isConnect routing op todo → Stands request routing (.serving x op todo)
  | gone {routing} : (routing ≠ .awaited → request.isConnect = true) → Stands request routing .gone

section Tasks

variable {request : Request} {connect : Bool} {routing : Routing} {s : State} {now k : Nat}
  {t t' : Task} {a : Answer} {sec : Section} {x : Handling} {op : Op} {todo : List Errand}

/-- There is a route for a CONNECT alone. -/
theorem OnRoute.connects (h : OnRoute connect routing op todo) (hrouting : routing ≠ .awaited) :
    connect = true := by
  cases h with
  | awaited => exact absurd rfl hrouting
  | given hconnect => exact hconnect
  | dialed hconnect => exact hconnect
  | told hconnect => exact hconnect
  | shown hconnect => exact hconnect

theorem OnRoute.tunnels (h : OnRoute connect routing op todo) (hop : op.tunnels = true) :
    connect = true := by
  cases h with
  | awaited htunnels => exact htunnels hop
  | given hconnect => exact hconnect
  | dialed hconnect => exact hconnect
  | told hconnect => exact hconnect
  | shown hconnect => exact hconnect

theorem OnRoute.not_intercepting (h : OnRoute connect routing op todo) :
    ∀ authority, op ≠ .intercepting authority := by
  cases h with
  | awaited _ _ hnot => exact hnot
  | shown _ _ hnot => exact hnot
  | _ => exact fun _ => Op.noConfusion

theorem Op.routes_of_establishes {op : Op} (h : op.establishes = false) : op.routes = false := by
  cases op <;> first | rfl | cases h

theorem Routing.next_awaited {proxy : SocketAddr} (h : a ≠ .issued (some true)) :
    Routing.next proxy .awaited a = .awaited := by
  unfold Routing.next
  split
  · exact absurd rfl h
  all_goals first | rfl | contradiction

/-- The upstream of a CONNECT with a route is connected, or it is refused. -/
theorem OnRoute.given_step {proxy : SocketAddr} {tls : Option ProxyTlsInterception} {http2 : Bool}
    {seen : Seen} {authority : Authority} {port : Nat} {route : TlsInterceptRoute} {m : Move}
    (hconnect : connect = true)
    (h : (Op.dialing authority port (some route)).step proxy tls http2 s x seen a = some m) :
    OnRoute connect (Routing.next proxy .given a) m.op m.todo := by
  cases a with
  | dialed lookup accepted handshake =>
      have hstep : tunnelStep proxy tls x seen (.dialing authority port (some route))
          (.dialed lookup accepted handshake) = some m := by
        unfold Op.step at h
        split at h
        next htunnel => exact htunnel.trans h
        next htunnel =>
          unfold tunnelStep at htunnel
          dsimp only at htunnel
          split at htunnel <;> cases htunnel
      unfold tunnelStep at hstep
      unfold Routing.next
      dsimp only at hstep ⊢
      cases hok : connectUpstream proxy lookup accepted with
      | error error =>
          rw [hok] at hstep
          cases hstep
          exact .awaited Bool.noConfusion rfl (fun _ => Op.noConfusion)
            (by simp [Handling.refuse, Exchange.finish])
      | ok =>
          rw [hok] at hstep
          cases hstep
          exact .dialed hconnect
  | _ => cases h

/-- A move of an operation with nothing left to do. -/
theorem OnRoute.step {proxy : SocketAddr} {tls : Option ProxyTlsInterception} {http2 : Bool}
    {seen : Seen} {m : Move} (h : OnRoute connect routing op [])
    (hstep : op.step proxy tls http2 s x seen a = some m) :
    OnRoute connect (routing.next proxy a) m.op m.todo := by
  have hled := Op.step_led hstep
  cases h with
  | awaited htunnels hroutes =>
      by_cases hissued : a = .issued (some true)
      · obtain ⟨hestablishes, htodo, authority, port, route, hop⟩ := hled.issued hissued
        have htunnel : op.tunnels = true := by
          cases op <;> first | rfl | cases hestablishes
        rw [hissued, htodo, hop]
        exact .given (htunnels htunnel)
      · rw [Routing.next_awaited hissued]
        refine .awaited (fun hop => htunnels (hled.tunnels hop)) ?_ hled.intercepting fun hmem => ?_
        · exact Bool.eq_false_iff.mpr fun hm => hissued (hled.routes hm)
        · rw [hled.tells hmem] at hroutes
          cases hroutes
  | given hconnect => exact OnRoute.given_step hconnect hstep
  | shown hconnect hestablishes =>
      have hm : m.op.establishes = false := Bool.eq_false_iff.mpr fun hm => by
        rw [hled.establishes hm] at hestablishes
        cases hestablishes
      refine .shown hconnect hm hled.intercepting fun hmem => ?_
      have hroutes := hled.tells hmem
      rw [Op.routes_of_establishes hestablishes] at hroutes
      cases hroutes

theorem OnRoute.refuse {seen : Seen} {error : ForwardError} (h : OnRoute connect routing op [])
    (proxy : SocketAddr) :
    OnRoute connect (routing.next proxy .deadline) (x.refuse seen error).op
      (x.refuse seen error).todo := by
  have htodo : .change .tls ∉ (x.refuse seen error).todo := by
    simp [Handling.refuse, Exchange.finish]
  cases h with
  | awaited => exact .awaited Bool.noConfusion rfl (fun _ => Op.noConfusion) htodo
  | given => exact .awaited Bool.noConfusion rfl (fun _ => Op.noConfusion) htodo
  | shown hconnect => exact .shown hconnect rfl (fun _ => Op.noConfusion) htodo

/-- An errand of it. -/
theorem OnRoute.errand {errand : Errand} (h : OnRoute connect routing op (errand :: todo))
    (proxy : SocketAddr) : OnRoute connect (routing.next proxy .go) op todo := by
  cases h with
  | awaited htunnels hroutes hintercepting htodo =>
      exact .awaited htunnels hroutes hintercepting fun hmem => htodo (List.mem_cons_of_mem _ hmem)
  | dialed hconnect => exact .told hconnect
  | told hconnect => exact .shown hconnect rfl (fun _ => Op.noConfusion) (by simp)
  | shown hconnect hestablishes hintercepting htodo =>
      exact .shown hconnect hestablishes hintercepting fun hmem => htodo (List.mem_cons_of_mem _ hmem)

/-- What a task does that serves exchange `x`. -/
inductive Task.Runs (s : State) (k : Nat) (t : Task) (x : Handling) (op : Op) :
    List Errand → Answer → Section → Task → Prop
  | errand {errand todo} : Runs s k t x op (errand :: todo) .go (errand.section x.id)
      { t with pc := .serving x op todo }
  | drop : op.suspended = true → Runs s k t x op [] .drop .nothing { t with pc := .gone }
  | deadline : op.awaits = true → Runs s k t x op [] .deadline .nothing
      (t.after x (x.refuse t.seen t.origin.timeout))
  | operates {a m} :
      op.step t.listening.address t.listening.tlsInterception t.origin.http2 s x t.seen a = some m →
      Runs s k t x op [] a (m.act.section k x.id) (t.after x m)

theorem Task.runs_of_step {crypto : Crypto} (hpc : t.pc = .serving x op todo)
    (h : t.step crypto s now k a = some (sec, t')) : t.Runs s k x op todo a sec t' := by
  rw [Task.step, hpc] at h
  cases todo with
  | cons errand todo =>
      dsimp only at h
      split at h
      next ha =>
        cases h
        rw [ha]
        exact .errand
      next => cases h
  | nil =>
      dsimp only at h
      split at h
      next ha =>
        rw [ha]
        split at h
        next hop =>
          cases h
          exact .drop hop
        next => cases h
      next =>
        split at h
        next ha =>
          rw [ha]
          split at h
          next hop =>
            cases h
            exact .deadline hop
          next => cases h
        next =>
          obtain ⟨m, hm, heq⟩ := Option.map_eq_some_iff.mp h
          cases heq
          exact .operates hm

/-- A request is handed to the tunnel of a CONNECT alone. -/
theorem Stands.connects (h : Stands request routing t.pc) {authority : Authority}
    {route : TlsInterceptRoute} {http2 first : Bool}
    (hpc : t.pc = .serving x (.serving authority route http2 first) todo) :
    request.isConnect = true := by
  rw [hpc] at h
  cases h with
  | serving _ honroute => exact honroute.tunnels rfl

end Tasks

/-! ## What is shown of it -/

/-- An event is not the arrival of a request in the tunnel of task `k`. -/
theorem Stands.not_inner {crypto : Crypto} {s s' : Engine} {e : Event} {k : Nat} {t : Task}
    {request : Request} {routing : Routing} (ht : s.tasks[k]? = some t)
    (hstands : Stands request routing t.pc) (hplain : request.isConnect = false)
    (hstep : (engine crypto).step s e = some s') : ∀ r, e ≠ .inner k r := by
  rintro r rfl
  obtain ⟨sec, p, hmoved, -, -⟩ := Engine.step_cases hstep
  have hconnect {u : Task} {x : Handling} {authority : Authority} {route : TlsInterceptRoute}
      {http2 first : Bool} (hu : s.tasks[k]? = some u)
      (hpc : u.pc = .serving x (.serving authority route http2 first) []) : False := by
    cases ht.symm.trans hu
    cases hplain.symm.trans (hstands.connects hpc)
  cases hmoved with
  | lifecycle hlife => cases hlife
  | innerFirst hu hpc => exact hconnect hu hpc
  | innerNext hu hpc => exact hconnect hu hpc

/-- A moment of a task that has no inner target to check leaves what is shown of the request, but
for the route. -/
theorem Change.take_moment {t : Task} {change : Change} (htls : change ≠ .tls)
    (hop : ∀ x authority todo, t.pc ≠ .serving x (.intercepting authority) todo) (shown : Shown) :
    (shown.take (change.moment (some t))).toShownRequest = shown.toShownRequest := by
  cases change with
  | tls => exact absurd rfl htls
  | intercepted =>
      unfold Change.moment
      dsimp only [Option.bind_some]
      split
      next hpc => exact absurd hpc (hop _ _ _)
      next => rfl
  | replaced =>
      unfold Change.moment
      dsimp only [Option.bind_some]
      split <;> rfl
  | responded =>
      unfold Change.moment
      dsimp only [Option.bind_some]
      split <;> rfl
  | _ => rfl

theorem ShownRequest.after_next {routing : Routing} {a : Answer} (h : routing = .told → a ≠ .go)
    (base : ShownRequest) (proxy : SocketAddr) :
    base.after (routing.next proxy a) = base.after routing := by
  cases routing with
  | awaited =>
      by_cases hissued : a = .issued (some true)
      · rw [hissued]
        rfl
      · rw [Routing.next_awaited hissued]
  | given =>
      cases a with
      | dialed lookup accepted handshake =>
          unfold Routing.next
          dsimp only
          cases connectUpstream proxy lookup accepted <;> rfl
      | _ => rfl
  | dialed => cases a <;> rfl
  | told =>
      cases a with
      | go => exact absurd rfl (h rfl)
      | _ => rfl
  | shown => cases a <;> rfl

/-- A step of the task shows the route, if that is what it tells, and nothing else of a request. -/
theorem Engine.take_own {crypto : Crypto} {s : Engine} {k : Nat} {t t' : Task} {a : Answer}
    {sec : Section} {x : Handling} {op : Op} {todo : List Errand} {connect : Bool} {routing : Routing}
    (hsec : s.section crypto (.task k a) = sec) (ht : s.tasks[k]? = some t)
    (hpc : t.pc = .serving x op todo) (hruns : t.Runs s.shared k x op todo a sec t')
    (honroute : OnRoute connect routing op todo) {base : ShownRequest} {shown : Shown}
    (hshown : shown.toShownRequest = base.after routing) (proxy : SocketAddr) :
    (shown.take (s.moment crypto x.id (.task k a))).toShownRequest =
      base.after (routing.next proxy a) := by
  have hmover : s.mover? (.task k a) = some t := ht
  have hop : ∀ x authority todo, t.pc ≠ .serving x (.intercepting authority) todo := by
    intro y authority todo' heq
    cases hpc.symm.trans heq
    exact honroute.not_intercepting authority rfl
  -- a change that is not that of the route
  have hchange {change : Change} (heq : sec = .update x.id change) (htls : change ≠ .tls)
      (htold : routing = .told → a ≠ .go) :
      (shown.take (s.moment crypto x.id (.task k a))).toShownRequest =
        base.after (routing.next proxy a) := by
    rw [Engine.moment_of_update (hsec.trans heq), hmover, Change.take_moment htls hop, hshown,
      ShownRequest.after_next htold]
  -- no change
  have hnone (hbegins : sec.begins = none) (hupdate : ∀ id change, sec ≠ .update id change)
      (htold : routing = .told → a ≠ .go) :
      (shown.take (s.moment crypto x.id (.task k a))).toShownRequest =
        base.after (routing.next proxy a) := by
    rw [Engine.moment_of_others hsec hbegins hupdate, ShownRequest.after_next htold]
    exact hshown
  cases hruns with
  | @errand errand todo =>
      cases errand with
      | change change =>
          by_cases htls : change = .tls
          · subst htls
            have hrouted : s.moment crypto x.id (.task k .go) = some .routed :=
              Engine.moment_of_update hsec
            rw [hrouted]
            cases honroute with
            | awaited _ _ _ htodo => exact absurd List.mem_cons_self htodo
            | told =>
                show { shown.toShownRequest with kind := .tls } = base.after .shown
                rw [hshown]
                rfl
            | shown _ _ _ htodo => exact absurd List.mem_cons_self htodo
          · refine hchange rfl htls fun heq => ?_
            rw [heq] at honroute
            cases honroute
            exact absurd rfl htls
      | announce =>
          refine hnone rfl (fun _ _ => Section.noConfusion) fun heq => ?_
          rw [heq] at honroute
          cases honroute
      | removeBody =>
          refine hnone rfl (fun _ _ => Section.noConfusion) fun heq => ?_
          rw [heq] at honroute
          cases honroute
  | drop => exact hnone rfl (fun _ _ => Section.noConfusion) fun _ => Answer.noConfusion
  | deadline => exact hnone rfl (fun _ _ => Section.noConfusion) fun _ => Answer.noConfusion
  | @operates a m hstep =>
      have htold : routing = .told → a ≠ .go := by
        intro heq
        rw [heq] at honroute
        cases honroute
      cases hact : m.act with
      | change change =>
          rw [hact] at hsec
          refine hchange (congrArg (·.section k x.id) hact) (fun htls => ?_) htold
          rcases change_of_step hstep hact with ⟨_, -, heq⟩ | ⟨_, draft, -, heq⟩
          · rw [htls] at heq
            cases heq
          · rw [htls] at heq
            unfold Draft.told at heq
            split at heq <;> cases heq
      | nothing =>
          rw [hact] at hnone
          exact hnone rfl (fun _ _ => Section.noConfusion) htold
      | pause status =>
          rw [hact] at hnone
          exact hnone rfl (fun _ _ => Section.noConfusion) htold
      | resume =>
          rw [hact] at hnone
          exact hnone rfl (fun _ _ => Section.noConfusion) htold
      | insert =>
          rw [hact] at hnone
          exact hnone rfl (fun _ _ => Section.noConfusion) htold

/-- The task of the request has begun that exchange, and its captures show it with its route. -/
structure Engine.Follows (s : Engine) (request : Request) (routing : Routing) (k id : Nat) : Prop where
  old : id < s.shared.nextId
  sole : s.Sole id k
  shows : ∀ c ∈ s.shared.traffic, c.id = id →
    c.shown.toShownRequest = request.unmarked.begun.after routing

/-- It serves that exchange, or is over. -/
def Task.HasBegun (t : Task) (id : Nat) : Prop :=
  t.pc = .gone ∨ ∃ x op todo, t.pc = .serving x op todo ∧ x.id = id

/-- A task goes on with its exchange until it is over. -/
theorem Engine.Became.exchange {s : Engine} {e : Event} {sec : Section} {i id : Nat} {t t' : Task}
    (h : s.Became e sec i t t') (ht : t.HasBegun id) : t'.HasBegun id := by
  rcases ht with hgone | ⟨x, op, todo, hpc, hid⟩
  · exact .inl (h.gone hgone)
  cases h with
  | stays => exact .inr ⟨x, op, todo, hpc, hid⟩
  | moves _ hm =>
      cases hm.goes hpc with
      | drop => exact .inl rfl
      | errand => exact .inr ⟨x, _, _, rfl, hid⟩
      | deadline => exact .inr ⟨x, _, _, rfl, hid⟩
      | asked => exact .inr ⟨x, _, _, rfl, hid⟩
      | answered => exact .inr ⟨x, _, _, rfl, hid⟩
  | polls => exact .inr ⟨x, op, todo, hpc, hid⟩
  | hands hpc' =>
      cases hpc.symm.trans hpc'
      exact .inr ⟨x, _, _, rfl, hid⟩
  | receives _ hreceive =>
      unfold Task.receive at hreceive
      split at hreceive
      next hpc' =>
        cases hreceive
        cases hpc.symm.trans hpc'
        exact .inr ⟨x, _, _, rfl, hid⟩
      next => cases hreceive

/-- **A step keeps what the captures of the exchange show.** -/
theorem Engine.Follows.step {crypto : Crypto} {s s' : Engine} {e : Event} {k id : Nat} {t : Task}
    {request : Request} {routing : Routing} (h : s.Follows request routing k id)
    (hr : (engine crypto).Reachable s) (ht : s.tasks[k]? = some t) (hbegun : t.HasBegun id)
    (hstands : Stands request routing t.pc) (hinner : ∀ r, e ≠ .inner k r)
    (hstep : (engine crypto).step s e = some s') :
    s'.Follows request (routing.after t.listening.address k e) k id := by
  obtain ⟨sec, p, -, hshared, -⟩ := Engine.step_cases hstep
  refine ⟨?_, h.sole.step h.old hstep hinner, ?_⟩
  · have hold := h.old
    rw [hshared, State.apply_nextId]
    omega
  · intro c' hc' hid
    rcases Engine.shown_step hr hstep hc' with ⟨c, hc, hcid, heq⟩ | ⟨_, -, hnew, -⟩
    · have hshown := h.shows c hc (hcid.trans hid)
      rw [heq, hid]
      by_cases hown : ∃ a, e = .task k a
      · obtain ⟨a, rfl⟩ := hown
        obtain ⟨⟨sec, p⟩, hmove, -⟩ := Option.map_eq_some_iff.mp hstep
        obtain ⟨u, u', hu, htask, -⟩ := Engine.move_task hmove
        cases ht.symm.trans hu
        rw [Routing.after_own]
        rcases hbegun with hgone | ⟨x, op, todo, hpc, rfl⟩
        · rw [Task.step, hgone] at htask
          cases htask
        · rw [hpc] at hstands
          cases hstands with
          | serving _ honroute =>
              exact Engine.take_own (Engine.section_of_move hmove) ht hpc
                (Task.runs_of_step hpc htask) honroute hshown _
      · have hother : ∀ a, e ≠ .task k a := fun a heq => hown ⟨a, heq⟩
        rw [Routing.after_of_others hother, h.sole.moment hr h.old hstep hother]
        exact hshown
    · have hold := h.old
      omega

/-! ## Beginnings -/

/-- The step is the one in which task `k` begins exchange `id`. -/
def Engine.Begins (crypto : Crypto) (s : Engine) (k id : Nat) (e : Event) : Prop :=
  e = .task k .go ∧ (s.section crypto e).begins.isSome = true ∧ s.shared.nextId = id

/-- Task `k` has begun exchange `id`. -/
def Began (crypto : Crypto) (k id : Nat) : List Event → Prop :=
  (engine crypto).Once fun _ s e => s.Begins crypto k id e

/-- An exchange is begun for a request that has been classified. -/
theorem Task.Moved.classified {s : State} {now k : Nat} {t t' : Task} {a : Answer} {sec : Section}
    (h : t.Moved s now k a sec t') {destination : DestinationClass}
    (hsec : sec.begins = some destination) :
    ∃ request clientProfileId replay destination classifier replayOf,
      t.pc = .classified request clientProfileId replay destination classifier ∧
        sec = .begin request destination clientProfileId replayOf := by
  cases h with
  | begin hpc => exact ⟨_, _, _, _, _, _, hpc, rfl⟩
  | @errand x op errand => cases errand <;> cases hsec
  | @asked x op a m =>
      cases hact : m.act <;> rw [hact] at hsec <;> cases hsec
  | @answered x op a m =>
      cases hact : m.act <;> rw [hact] at hsec <;> cases hsec
  | admits _ _ hor => rcases hor with rfl | ⟨token, rfl⟩ <;> cases hsec
  | unauthorized _ hor => rcases hor with rfl | ⟨token, rfl⟩ <;> cases hsec
  | _ => cases hsec

section Run

variable {crypto : Crypto} {k : Nat} {request : Request} {before : List Event} {u : Engine} {t₀ : Task}

end Run

end SippinSoda
