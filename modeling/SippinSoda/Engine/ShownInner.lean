import SippinSoda.Engine.ShownRequests

/-!
# What a capture shows of a request in a tunnel

A request in a tunnel takes over the capture of the CONNECT, if it is the first, or begins one of its
own. The first step of its task checks the target: if it lets the request through, the capture shows
it as one for the authority of the tunnel, and else it stays as it was.

* **pointsTo** — the targets that are let through;
* **Within** — where the task of an inner request is;
* **Holds** — what the capture of its exchange shows.
-/

namespace SippinSoda

/-! ## Targets -/

/-- Is the target one for the authority of the tunnel? -/
def Request.pointsTo (request : Request) (http2 : Bool) (authority : Authority) : Bool :=
  (request.uri.scheme.isNone && request.uri.authority.isNone) ||
    (http2 && request.uri.scheme == some "https".toList &&
      request.uri.authority.any (·.eqIgnoreAsciiCase authority))

/-- Does `forward_intercepted_https` let the request through? -/
def Request.passes (request : Request) (http2 : Bool) (authority : Authority) : Bool :=
  !request.headers.containsKey "upgrade".toList && request.pointsTo http2 authority

theorem interceptedTarget_eq {http2 : Bool} {authority : Authority} {request : Request} :
    interceptedTarget http2 authority request = .ok () ↔ request.passes http2 authority = true := by
  have hnone : ((request.uri.scheme.isSome || request.uri.authority.isSome) = true) ↔
      (request.uri.scheme.isNone && request.uri.authority.isNone) = false := by
    cases request.uri.scheme <;> cases request.uri.authority <;> simp
  unfold Request.passes Request.pointsTo
  simp only [interceptedTarget, bind, Except.bind]
  cases request.headers.containsKey "upgrade".toList with
  | true => exact iff_of_false (fun h => by cases h) Bool.noConfusion
  | false =>
      rw [if_neg Bool.false_ne_true]
      show (if _ then _ else _) = _ ↔ (_ || _) = true
      generalize (http2 && request.uri.scheme == some "https".toList &&
        request.uri.authority.any fun other => other.eqIgnoreAsciiCase authority) = valid
      by_cases hsome : (request.uri.scheme.isSome || request.uri.authority.isSome) = true
      · rw [hsome, hnone.mp hsome]
        cases valid with
        | true => exact iff_of_true rfl rfl
        | false => exact iff_of_false (fun h => by cases h) Bool.noConfusion
      · rw [Bool.eq_false_iff.mpr hsome, (Bool.not_eq_false _).mp fun h => hsome (hnone.mpr h)]
        exact iff_of_true rfl rfl

/-- What is shown of an inner request, before and after its target has been checked. -/
def Request.shownWithin (request : Request) (http2 : Bool) (authority : Authority)
    (base : ShownRequest) (checked : Bool) : ShownRequest :=
  if checked && request.passes http2 authority then request.intercepted authority else base

/-- Has the task taken a step, after this event too? -/
def stepped (k : Nat) (before : Bool) : Event → Bool
  | .task i _ => before || i = k
  | _ => before

/-! ## The task of an inner request -/

/-- Where the task of an inner request is. -/
inductive Within (authority : Authority) (request : Request) (id : Nat) : Bool → Pc → Prop
  | unchecked {x} : x.request = request → x.id = id →
      Within authority request id false (.serving x (.intercepting authority) [])
  | checked {x op todo} : x.id = id → OnRoute false .awaited op todo →
      Within authority request id true (.serving x op todo)
  | gone : Within authority request id true .gone

section Tasks

variable {http2 : Bool} {authority : Authority} {request : Request} {id k : Nat} {s : State}
  {x : Handling} {t t' : Task} {a : Answer} {sec : Section}

/-- The first step checks the target. -/
theorem intercepting_step {proxy : SocketAddr} {tls : Option ProxyTlsInterception}
    {seen : Seen} {m : Move}
    (h : (Op.intercepting authority).step proxy tls http2 s x seen a = some m) :
    (x.request.passes http2 authority = true ∧ m.op = .acquiring authority ∧ m.todo = [.announce] ∧
      m.act = .change (.intercepted x.request.method (interceptedTargetText authority x.request)
        (safeHeaders x.request.headers))) ∨
    x.request.passes http2 authority = false ∧ m.act = .nothing ∧
      ∃ error, m = x.refuse seen error := by
  cases a with
  | go =>
      have hstep : sendStep proxy http2 s x seen (.intercepting authority) .go = some m := by
        unfold Op.step at h
        rw [show tunnelStep proxy tls x seen (.intercepting authority) .go = none from rfl] at h
        dsimp only at h
        split at h
        next hsend => exact hsend.trans h
        next => cases h
      unfold sendStep at hstep
      dsimp only at hstep
      split at hstep
      next error htarget =>
        cases hstep
        refine .inr ⟨Bool.eq_false_iff.mpr fun hpasses => ?_, rfl, error, rfl⟩
        rw [interceptedTarget_eq.mpr hpasses] at htarget
        cases htarget
      next htarget =>
        cases hstep
        exact .inl ⟨interceptedTarget_eq.mp htarget, rfl, rfl, rfl⟩
  | _ => cases h

/-- Outside a tunnel there is no route. -/
theorem OnRoute.plain {routing : Routing} {op : Op} {todo : List Errand}
    (h : OnRoute false routing op todo) : OnRoute false .awaited op todo := by
  by_cases hrouting : routing = .awaited
  · exact hrouting ▸ h
  · cases h.connects hrouting

/-- **A step of its task** checks the target, or comes after that. -/
theorem Task.step_within {crypto : Crypto} {checked : Bool} {now : Nat}
    (ht : Within authority request id checked t.pc) (h : t.step crypto s now k a = some (sec, t')) :
    Within authority request id true t'.pc := by
  generalize hpc : t.pc = pc at ht
  cases ht with
  | unchecked hrequest hid =>
      cases Task.runs_of_step hpc h with
      | drop => exact .gone
      | deadline hop => cases hop
      | operates hstep =>
          refine .checked hid ?_
          rcases intercepting_step hstep with ⟨-, hop, htodo, -⟩ | ⟨-, -, error, rfl⟩
          · rw [hop, htodo]
            exact .awaited Bool.noConfusion rfl (fun _ => Op.noConfusion) (by simp)
          · exact .awaited Bool.noConfusion rfl (fun _ => Op.noConfusion)
              (by simp [Handling.refuse, Exchange.finish])
  | checked hid honroute =>
      cases Task.runs_of_step hpc h with
      | errand => exact .checked hid (honroute.errand t.listening.address).plain
      | drop => exact .gone
      | deadline => exact .checked hid (honroute.refuse t.listening.address).plain
      | operates hstep => exact .checked hid (honroute.step hstep).plain
  | gone =>
      rw [Task.step, hpc] at h
      cases h

/-- What others do leaves it where it is. -/
theorem Engine.Became.within {s : Engine} {e : Event} {checked : Bool} {i : Nat}
    (h : s.Became e sec i t t') (ht : Within authority request id checked t.pc)
    (hown : ∀ a, e ≠ .task i a) : Within authority request id checked t'.pc := by
  cases h with
  | stays => exact ht
  | moves => exact absurd rfl (hown _)
  | polls => exact ht
  | hands hpc =>
      rw [hpc] at ht
      cases ht with
      | checked _ honroute => cases honroute.tunnels rfl
  | receives _ hreceive =>
      unfold Task.receive at hreceive
      split at hreceive
      next hpc =>
        cases hreceive
        rw [hpc] at ht
        cases ht with
        | checked hid =>
            exact .checked hid
              (.awaited Bool.noConfusion rfl (fun _ => Op.noConfusion) List.not_mem_nil)
      next => cases hreceive

/-- Nothing is handed to it. -/
theorem Within.not_inner {crypto : Crypto} {s s' : Engine} {e : Event} {checked : Bool}
    (ht : s.tasks[k]? = some t) (hwithin : Within authority request id checked t.pc)
    (hstep : (engine crypto).step s e = some s') : ∀ r, e ≠ .inner k r := by
  rintro r rfl
  obtain ⟨sec, p, hmoved, -, -⟩ := Engine.step_cases hstep
  have hno {u : Task} {x : Handling} {tunnel : Authority} {route : TlsInterceptRoute}
      {http2 first : Bool} (hu : s.tasks[k]? = some u)
      (hpc : u.pc = .serving x (.serving tunnel route http2 first) []) : False := by
    cases ht.symm.trans hu
    rw [hpc] at hwithin
    cases hwithin with
    | checked _ honroute => cases honroute.tunnels rfl
  cases hmoved with
  | lifecycle hlife => cases hlife
  | innerFirst hu hpc => exact hno hu hpc
  | innerNext hu hpc => exact hno hu hpc

/-- A step of the task shows the request where it lets it through, and nothing else of a request. -/
theorem Engine.take_within {crypto : Crypto} {s : Engine} {checked : Bool} {now : Nat}
    (hsec : s.section crypto (.task k a) = sec) (ht : s.tasks[k]? = some t)
    (hhttp2 : t.origin.http2 = http2) (hwithin : Within authority request id checked t.pc)
    (htask : t.step crypto s.shared now k a = some (sec, t')) {base : ShownRequest} {shown : Shown}
    (hshown : shown.toShownRequest = request.shownWithin http2 authority base checked) :
    (shown.take (s.moment crypto id (.task k a))).toShownRequest =
      request.shownWithin http2 authority base true := by
  generalize hpc : t.pc = pc at hwithin
  cases hwithin with
  | @unchecked x hrequest hid =>
      subst hrequest
      cases Task.runs_of_step hpc htask with
      | drop hop => cases hop
      | deadline hop => cases hop
      | @operates a m hstep =>
          rw [hhttp2] at hstep
          unfold Request.shownWithin
          rcases intercepting_step hstep with ⟨hpasses, -, -, hact⟩ | ⟨hpasses, hact, -⟩
          · rw [hact] at hsec
            have hupdate : s.section crypto (.task k a) = .update id (.intercepted x.request.method
                (interceptedTargetText authority x.request) (safeHeaders x.request.headers)) :=
              hsec.trans (by rw [← hid]; rfl)
            have hmover : s.mover? (.task k a) = some t := ht
            rw [Engine.moment_of_update hupdate, hmover]
            unfold Change.moment
            rw [Option.bind_some, hpc]
            rw [hpasses]
            rfl
          · rw [hact] at hsec
            rw [Engine.moment_of_others hsec rfl fun _ _ => Section.noConfusion]
            rw [hpasses]
            exact hshown
  | checked hid honroute =>
      have hbase : shown.toShownRequest =
          (request.shownWithin http2 authority base true).after .awaited := hshown
      have htaken := Engine.take_own hsec ht hpc (Task.runs_of_step hpc htask) honroute hbase
        t.listening.address
      rw [hid] at htaken
      rw [htaken, ShownRequest.after_next Routing.noConfusion]
      rfl
  | gone =>
      rw [Task.step, hpc] at htask
      cases htask

end Tasks

/-! ## What is shown of it -/

/-- Task `j` has that inner request, and the captures of its exchange show it once it has been let
through, and `base` if it is not. -/
structure Engine.Holds (s : Engine) (http2 : Bool) (authority : Authority) (request : Request)
    (base : ShownRequest) (j id : Nat) (checked : Bool) : Prop where
  old : id < s.shared.nextId
  sole : s.Sole id j
  task : ∃ t, s.tasks[j]? = some t ∧ t.origin.http2 = http2 ∧ Within authority request id checked t.pc
  shows : ∀ c ∈ s.shared.traffic, c.id = id →
    c.shown.toShownRequest = request.shownWithin http2 authority base checked

section Runs

variable {crypto : Crypto} {http2 : Bool} {authority : Authority} {request : Request}
  {base : ShownRequest} {j id : Nat} {checked : Bool} {s s' : Engine} {e : Event}

theorem stepped_own (k : Nat) (before : Bool) (a : Answer) :
    stepped k before (.task k a) = true := by
  show (before || decide (k = k)) = true
  rw [decide_eq_true rfl, Bool.or_true]

theorem stepped_of_others {k : Nat} {before : Bool} (h : ∀ a, e ≠ .task k a) :
    stepped k before e = before := by
  unfold stepped
  split
  next i a =>
    rw [decide_eq_false fun hi => h a (by rw [hi]), Bool.or_false]
  next => rfl

/-- **A step keeps what the captures of the exchange show.** -/
theorem Engine.Holds.step (h : s.Holds http2 authority request base j id checked)
    (hr : (engine crypto).Reachable s) (hstep : (engine crypto).step s e = some s') :
    s'.Holds http2 authority request base j id (stepped j checked e) := by
  obtain ⟨t, ht, hhttp2, hwithin⟩ := h.task
  have hinner := hwithin.not_inner ht hstep
  obtain ⟨⟨sec, p⟩, hmove, rfl⟩ := Option.map_eq_some_iff.mp hstep
  have hmoved := Engine.moved_of_move hmove
  obtain ⟨t', ht', hbecame⟩ := hmoved.became ht
  have hafter : (p.log s.shared sec).tasks[j]? = some t' := by
    rw [Parties.log_tasks]
    exact ht'
  have hold := h.old
  refine ⟨?_, h.sole.step hold hstep hinner, ⟨t', hafter, ?_, ?_⟩, ?_⟩
  · show id < (s.shared.apply s.clock sec).nextId
    rw [State.apply_nextId]
    omega
  · rw [hbecame.origin]
    exact hhttp2
  · by_cases hown : ∃ a, e = .task j a
    · obtain ⟨a, rfl⟩ := hown
      obtain ⟨u, u', hu, htask, rfl⟩ := Engine.move_task hmove
      cases ht.symm.trans hu
      cases ht'.symm.trans (List.getElem?_set_self (List.getElem?_eq_some_iff.mp hu).1)
      rw [stepped_own]
      exact Task.step_within hwithin htask
    · have hother : ∀ a, e ≠ .task j a := fun a heq => hown ⟨a, heq⟩
      rw [stepped_of_others hother]
      exact hbecame.within hwithin hother
  · intro c' hc' hid
    rcases Engine.shown_step hr hstep hc' with ⟨c, hc, hcid, heq⟩ | ⟨_, -, hnew, -⟩
    · have hshown := h.shows c hc (hcid.trans hid)
      rw [heq, hid]
      by_cases hown : ∃ a, e = .task j a
      · obtain ⟨a, rfl⟩ := hown
        obtain ⟨u, u', hu, htask, -⟩ := Engine.move_task hmove
        cases ht.symm.trans hu
        rw [stepped_own]
        exact Engine.take_within (Engine.section_of_move hmove) ht hhttp2 hwithin htask hshown
      · have hother : ∀ a, e ≠ .task j a := fun a heq => hown ⟨a, heq⟩
        rw [stepped_of_others hother, h.sole.moment hr hold hstep hother]
        exact hshown
    · omega

/-- **The captures of an inner request over a run.** -/
theorem Engine.Holds.run (h : s.Holds http2 authority request base j id checked)
    (hr : (engine crypto).Reachable s) {es : List Event}
    (hrun : (engine crypto).runFrom s es = some s') :
    s'.Holds http2 authority request base j id (es.foldl (stepped j) checked) := by
  have hstep : ∀ {checked : Bool} {s : Engine} {e : Event} {s' : Engine},
      ((engine crypto).Reachable s ∧ s.Holds http2 authority request base j id checked) →
      (engine crypto).step s e = some s' →
      (engine crypto).Reachable s' ∧
        s'.Holds http2 authority request base j id (stepped j checked e) := by
    rintro checked s e s' ⟨hr, h⟩ hstep
    exact ⟨.step hr trivial hstep, h.step hr hstep⟩
  exact (Machine.runFrom_fold (I := fun checked s => (engine crypto).Reachable s ∧
    s.Holds http2 authority request base j id checked) hstep ⟨hr, h⟩ hrun).2

end Runs

end SippinSoda
