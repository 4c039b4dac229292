import SippinSoda.Engine.Forwarder
import SippinSoda.Engine.Announcements
import SippinSoda.Lib.Ledger

/-!
# How the recording of a request body ends

`forward_with_sender` says what becomes of a request body, its `RequestBody` collects it, and the
detached task of `finish_capture` says how that ended. A body that is dropped while it is collected,
that fails, grows too large or has no bytes leaves nobody to say so.

* **drafts**, **recordings** — who is still to write the state of a request body;
* **bodyEnds** — the steps of a body that leave somebody to say how it ended;
* **Tells** — what a step makes of the state of a request body, and of who is to write it;
* **request_recording_ends** — with such steps alone every recording reaches a final state.
-/

namespace SippinSoda

open Ledger

/-! ## Who is still to write -/

/-- The changes of the state of a request body. -/
def Change.ofBody : Change → Bool
  | .requestBody _ | .requestUnavailable _ | .requestBodyError _ => true
  | _ => false

def Errand.ofBody : Errand → Bool
  | .change c => c.ofBody
  | _ => false

/-- Does the operation still have the body of its request? -/
def Op.whole : Op → Bool
  | .establishing | .preparing _ _ | .dialing _ _ _ | .upgrading _ _ | .securing _ _
  | .forwarding | .connecting _ _ | .intercepting _ | .acquiring _ | .rewriting _ => true
  | .serving _ _ _ first => first
  | _ => false

/-- The exchange of a task that has not said yet what becomes of the request body. -/
def Task.draft? (t : Task) : Option Nat :=
  match t.pc with
  | .serving x op _ => if op.whole || t.unsent then some x.id else none
  | _ => none

def Task.drafts (id : Nat) (t : Task) : Nat := if t.draft? = some id then 1 else 0

/-- The bytes that a body collects, or hands to a store task. -/
def BodyParty.pending (p : BodyParty) : Nat := p.body.capture.toList.length + p.stores.length

/-- What a task's request body is to be told of, once it is on its way. -/
def Task.recordings (id : Nat) (t : Task) : Nat :=
  match t.body with
  | some party => if party.exchange.id = id ∧ t.unsent = false then party.pending else 0
  | none => 0

/-- A store task says how the recording has ended when its operation has returned. -/
def StoreTask.recordings (id : Nat) (t : StoreTask) : Nat :=
  match t.point with
  | .storing | .reporting _ => if t.exchange.id = id then 1 else 0
  | _ => 0

def Parties.drafts (p : Parties) (id : Nat) : Nat := total (Task.drafts id) p.tasks

def Parties.recordings (p : Parties) (id : Nat) : Nat :=
  total (Task.recordings id) p.tasks + total (StoreTask.recordings id) p.stores

/-! ## The steps that leave somebody to say how a body ended -/

/-- Does a poll leave somebody to say how the collected body ended? -/
def RequestBody.ends (body : RequestBody) : Poll → Bool
  | .pending => true
  | .frame (.data bytes) last => body.capture.all fun buffer =>
      buffer.length + bytes.length ≤ body.limit && (!last || !(buffer ++ bytes).isEmpty)
  | .frame .trailers last => body.capture.all fun buffer => !last || !buffer.isEmpty
  | .done => body.capture.all fun buffer => !buffer.isEmpty
  | .error => body.capture.isNone

/-- The same of any step of a request body. A transfer error may still come once the body has been
given up. -/
def BodyParty.ends (s : State) (p : BodyParty) : BodyAnswer → Bool
  | .go => true
  | .drop => p.body.capture.isNone
  | .poll poll => p.body.ends poll && (poll ≠ .error || s.traffic.all fun c =>
      c.id ≠ p.exchange.id || c.requestBodyState = .unavailable)

/-- Is every step of the request body of exchange `id` such a one, while its capture is there? -/
def Engine.bodyEnds (id : Nat) (s : Engine) : Event → Bool
  | .body k answer => (s.tasks[k]?.bind Task.body).all fun party =>
      party.exchange.id ≠ id || !decide (s.shared.Retained id) || party.ends s.shared answer
  | _ => true

/-! ## What an operation says of its request body -/

/-- How the first word on a request body agrees with what is collected. -/
inductive Announces : Change → Option (List UInt8) → Prop
  | recording : Announces (.requestBody .recording) (some [])
  | unavailable (message : String) : Announces (.requestUnavailable message) none
  | empty : Announces (.requestBody .empty) none

/-- What a move that rewrites the request says of its body. -/
structure Sends (x : Handling) (op : Op) (m : Move) : Prop where
  op : ∃ authority, op = .rewriting authority ∧ m.op = .sending authority
  act : m.act = .nothing
  party : ∃ party, m.body = some party ∧ party.exchange = x.toExchange ∧ party.todo = [] ∧
    party.stores = [] ∧
    (m.todo = [] ∧ party.body.capture = none ∨
      ∃ change, m.todo = [.change change] ∧ Announces change party.body.capture)

/-- Any other move says nothing of it. -/
structure Silent (op : Op) (m : Move) : Prop where
  body : m.body = none
  whole : m.op.whole = true → op.whole = true
  sending : ∀ authority, m.op ≠ .sending authority
  todo : ∀ errand ∈ m.todo, errand.ofBody = false
  act : ∀ change, m.act = .change change → change.ofBody = false

theorem ofBody_finish (x : Exchange) (error : Option String) :
    ∀ errand ∈ x.finish error, errand.ofBody = false := by
  simp [Exchange.finish, Errand.ofBody, Change.ofBody]

theorem silent_refuse (x : Handling) (seen : Seen) (error : ForwardError) (op : Op) :
    Silent op (x.refuse seen error) where
  body := rfl
  whole h := by cases h
  sending authority h := by cases h
  todo := by simp [Handling.refuse, Exchange.finish, Errand.ofBody, Change.ofBody]
  act change h := by cases h

/-- A move that queues nothing. -/
theorem Silent.to {op op' : Op} {seen : Seen} (hwhole : op'.whole = true → op.whole = true)
    (hsending : ∀ authority, op' ≠ .sending authority) : Silent op { op := op', seen := seen } where
  body := rfl
  whole := hwhole
  sending := hsending
  todo errand h := absurd h List.not_mem_nil
  act change h := by cases h

theorem silent_tunnelStep {proxy : SocketAddr} {tls : Option ProxyTlsInterception} {x : Handling}
    {seen : Seen} {op : Op} {a : Answer} {m : Move}
    (h : tunnelStep proxy tls x seen op a = some m) : Silent op m := by
  have hend (seen : Seen) (op : Op) (error : Option String) :
      Silent op { op := .ended, todo := x.finish error, seen := seen } :=
    ⟨rfl, by simp [Op.whole], by simp, ofBody_finish x.toExchange error, by simp⟩
  unfold tunnelStep at h
  split at h
  -- establishing
  · split at h
    · cases h
      exact silent_refuse ..
    · split at h <;> cases h <;> exact .to (fun _ => rfl) (by simp)
  -- preparing
  · split at h <;> cases h
    · exact silent_refuse ..
    · exact .to (fun _ => rfl) (by simp)
    · exact .to (fun _ => rfl) (by simp)
  -- dialing
  · simp only at h
    split at h <;> cases h
    · exact silent_refuse ..
    · refine ⟨rfl, fun _ => rfl, by simp, ?_, by simp⟩
      split <;> simp [Errand.ofBody, Change.ofBody]
  -- upgrading
  · split at h
    · cases h
      exact hend ..
    · split at h <;> cases h
      · exact .to (fun _ => rfl) (by simp)
      · exact .to (fun _ => rfl) (by simp)
  -- securing
  · split at h <;> cases h
    · exact .to (fun _ => rfl) (by simp)
    · exact hend ..
  -- serving
  · cases h
    exact hend ..
  -- copying
  · split at h <;> cases h
    refine ⟨rfl, by simp [Op.whole], by simp, ?_, by simp⟩
    split <;> simp [Errand.ofBody, Change.ofBody]
  · cases h
    exact hend ..
  · cases h

theorem sends_sendStep {proxy : SocketAddr} {http2 : Bool} {s : State} {x : Handling}
    {seen : Seen} {op : Op} {a : Answer} {m : Move}
    (h : sendStep proxy http2 s x seen op a = some m) : Sends x op m ∨ Silent op m := by
  unfold sendStep at h
  split at h
  -- forwarding
  · split at h <;> cases h
    · exact .inr (silent_refuse ..)
    · exact .inr (.to (fun _ => rfl) (by simp))
  -- connecting
  · simp only at h
    split at h
    · cases h
      exact .inr (silent_refuse ..)
    · split at h <;> cases h
      · exact .inr (.to (fun _ => rfl) (by simp))
      · exact .inr (silent_refuse ..)
  -- intercepting
  · split at h <;> cases h
    · exact .inr (silent_refuse ..)
    · refine .inr ⟨rfl, fun _ => rfl, by simp, ?_, ?_⟩
      · simp [Errand.ofBody]
      · intro change hact
        cases hact
        rfl
  -- acquiring
  · cases h
    exact .inr (.to (fun _ => rfl) (by simp))
  -- rewriting
  · cases h
    refine .inl ⟨⟨_, rfl, rfl⟩, rfl, _, rfl, rfl, rfl, rfl, ?_⟩
    unfold RequestBody.new
    simp only
    cases hcapture : s.captureBodies with
    | false => exact .inl ⟨rfl, rfl⟩
    | true =>
        right
        cases hbody : !x.request.bodyEnded with
        | false => exact ⟨_, rfl, .empty⟩
        | true =>
            cases hjson :
              requestIsJson (requestContentType (upstreamRequest http2 _ x.request)) with
            | false => exact ⟨_, rfl, .unavailable _⟩
            | true => exact ⟨_, rfl, .recording⟩
  -- sending
  · split at h <;> cases h
    · exact .inr (silent_refuse ..)
    · exact .inr (.to (by simp [Op.whole]) (by simp))
  · cases h

theorem silent_answerStep {http2 : Bool} {s : State} {x : Handling} {seen : Seen} {op : Op}
    {a : Answer} {m : Move} (h : answerStep http2 s x seen op a = some m) : Silent op m := by
  have hreturn (seen : Seen) (response : Response) (act : Act) (todo : List Errand)
      (htodo : ∀ errand ∈ todo, errand.ofBody = false)
      (hact : ∀ change, act = .change change → change.ofBody = false) :
      Silent op { op := .returned response, act := act, todo := todo, seen := seen } :=
    ⟨rfl, by simp [Op.whole], by simp, htodo, hact⟩
  have hfinish := ofBody_finish x.toExchange
  unfold answerStep at h
  split at h
  -- answered
  · cases h
    refine ⟨rfl, by simp [Op.whole], by simp, ?_, by simp⟩
    dsimp only
    split <;> simp [Errand.ofBody, Change.ofBody]
  -- breaking
  · split at h <;> cases h
    · exact ⟨rfl, by simp [Op.whole], by simp, by simp, by simp⟩
    · exact .to (by simp [Op.whole]) (by simp)
  -- paused
  · cases h
    exact ⟨rfl, by simp [Op.whole], by simp, by simp [Errand.ofBody, Change.ofBody], by simp⟩
  -- shaping
  · simp only at h
    split at h <;> cases h
    · refine ⟨rfl, by simp [Op.whole], by simp, by simp, fun change hact => ?_⟩
      cases hact
      rfl
    · refine ⟨rfl, by simp [Op.whole], by simp, by simp, fun change hact => ?_⟩
      cases hact
      rfl
  -- keeping
  · split at h <;> cases h
    · exact .to (by simp [Op.whole]) (by simp)
    · exact hreturn _ _ _ _ (hfinish _) (by simp)
  -- storing
  · split at h <;> cases h
    · exact hreturn _ _ _ _ (hfinish _) (by simp)
    · refine hreturn _ _ _ _ ?_ (by simp)
      simp [Exchange.finish, Errand.ofBody, Change.ofBody]
  -- taping
  · split at h <;> cases h
    · exact .to (by simp [Op.whole]) (by simp)
    · exact .to (by simp [Op.whole]) (by simp)
  -- recording
  · split at h <;> cases h
    · exact ⟨rfl, by simp [Op.whole], by simp, by simp, by simp⟩
    · exact ⟨rfl, by simp [Op.whole], by simp, by simp [Errand.ofBody, Change.ofBody], by simp⟩
  -- checking
  · cases h
    refine ⟨rfl, by simp [Op.whole], by simp, ?_, by simp⟩
    dsimp only
    split <;> simp [Errand.ofBody]
  -- closing
  · split at h
    · cases h
      exact .to (by simp [Op.whole]) (by simp)
    · split at h <;> cases h
      · exact .to (by simp [Op.whole]) (by simp)
      · exact hreturn _ _ _ _ (hfinish _) (by simp)
  -- emptying
  · cases h
    exact hreturn _ _ _ _ (hfinish _) (by simp)
  -- returned
  · split at h
    · cases h
    · split at h <;> cases h
      · refine hreturn _ _ _ _ ?_ (by simp)
        split <;> simp [Exchange.finish, Errand.ofBody, Change.ofBody]
      · exact hreturn _ _ _ _ (hfinish _) (by simp)
      · exact hreturn _ _ _ _ (hfinish _) (by simp)
  · cases h

/-- **A move says what becomes of the request body when it rewrites the request**, and only then. -/
theorem sends_of_step {proxy : SocketAddr} {tls : Option ProxyTlsInterception} {http2 : Bool}
    {s : State} {x : Handling} {seen : Seen} {op : Op} {a : Answer} {m : Move}
    (h : op.step proxy tls http2 s x seen a = some m) : Sends x op m ∨ Silent op m := by
  unfold Op.step at h
  split at h
  next htunnel =>
    cases h
    exact .inr (silent_tunnelStep htunnel)
  next =>
    split at h
    next hsend =>
      cases h
      exact sends_sendStep hsend
    next => exact .inr (silent_answerStep h)

/-! ## Steps of a task -/

theorem Task.unsent_iff {t : Task} : t.unsent = true ↔
    ∃ x authority errand todo, t.pc = .serving x (.sending authority) (errand :: todo) := by
  unfold Task.unsent
  constructor
  · intro h
    split at h
    next hpc => exact ⟨_, _, _, _, hpc⟩
    next => cases h
  · rintro ⟨x, authority, errand, todo, hpc⟩
    rw [hpc]

theorem Task.unsent_of_nil {t : Task} {x : Handling} {op : Op} (hpc : t.pc = .serving x op []) :
    t.unsent = false := by
  by_contra h
  obtain ⟨y, authority, errand, todo, hpc'⟩ := Task.unsent_iff.mp (by simpa using h)
  cases hpc.symm.trans hpc'

theorem Task.unsent_of_op {t : Task} {x : Handling} {op : Op} {todo : List Errand}
    (hpc : t.pc = .serving x op todo) (hop : ∀ authority, op ≠ .sending authority) :
    t.unsent = false := by
  by_contra h
  obtain ⟨y, authority, errand, todo', hpc'⟩ := Task.unsent_iff.mp (by simpa using h)
  cases hpc.symm.trans hpc'
  exact hop _ rfl

theorem Task.unsent_of_pc {t : Task} (hpc : ∀ x op todo, t.pc ≠ .serving x op todo) :
    t.unsent = false := by
  by_contra h
  obtain ⟨y, authority, errand, todo, hpc'⟩ := Task.unsent_iff.mp (by simpa using h)
  exact hpc _ _ _ hpc'

theorem Task.draft?_serving {t : Task} {x : Handling} {op : Op} {todo : List Errand}
    (hpc : t.pc = .serving x op todo) :
    t.draft? = if op.whole || t.unsent then some x.id else none := by
  unfold Task.draft?
  rw [hpc]

theorem Task.draft?_of_pc {t : Task} (hpc : ∀ x op todo, t.pc ≠ .serving x op todo) :
    t.draft? = none := by
  unfold Task.draft?
  split
  next hpc' => exact absurd hpc' (hpc _ _ _)
  next => rfl

/-- What a task has of its request body. -/
structure Task.Tidy (t : Task) : Prop where
  /-- Only a task that has rewritten its request has a body. -/
  body : t.body.isSome = true →
    t.pc = .gone ∨ ∃ x op todo, t.pc = .serving x op todo ∧ op.whole = false
  /-- A task about to send it has one thing to say of it. -/
  unsent : t.unsent = true → ∃ x authority change party,
    t.pc = .serving x (.sending authority) [.change change] ∧ t.body = some party ∧
    party.exchange = x.toExchange ∧ party.todo = [] ∧ party.stores = [] ∧
    Announces change party.body.capture
  todo : t.unsent = false → ∀ x op todo, t.pc = .serving x op todo →
    ∀ errand ∈ todo, errand.ofBody = false
  errors : ∀ party, t.body = some party → ∀ errand ∈ party.todo, errand.ofBody = true →
    ∃ message, errand = .change (.requestBodyError message)

/-- What a section leaves of the states of request bodies: all of it. -/
def Section.keepsBodies (sec : Section) : Prop :=
  ∀ id change, sec = .update id change → change.ofBody = false

/-- What a step of a task makes of its request body. -/
inductive Task.Says (s : State) (t : Task) : Section → Task → Prop
  /-- The body stays with the task, and nothing is said of it. -/
  | quiet {sec t'} : sec.keepsBodies → t'.body = t.body → t'.unsent = t.unsent →
      (t'.draft? = t.draft? ∨ t'.draft? = none) → Says s t sec t'
  | begins {sec t'} : sec.keepsBodies → sec.begins.isSome = true → t'.body = t.body →
      t'.unsent = t.unsent → t.draft? = none → t'.draft? = some s.nextId → Says s t sec t'
  /-- The request is rewritten; with recording off there is nothing to say. -/
  | rewrites {t' party} : t.body = none → t'.body = some party → party.todo = [] →
      (t'.unsent = true ∧ t'.draft? = t.draft? ∨
        t'.unsent = false ∧ t'.draft? = none ∧ party.pending = 0) → Says s t .nothing t'
  | announces {t' id change party} : t.draft? = some id → t'.draft? = none → t.unsent = true →
      t'.unsent = false → t.body = some party → t'.body = some party → party.exchange.id = id →
      party.todo = [] → party.stores = [] → Announces change party.body.capture →
      Says s t (.update id change) t'

theorem keepsBodies_nothing : Section.nothing.keepsBodies := by
  intro id change h
  cases h

theorem keepsBodies_token {sec : Section}
    (hsec : sec = .nothing ∨ ∃ token, sec = .removeToken token) : sec.keepsBodies := by
  intro id change h
  rcases hsec with rfl | ⟨token, rfl⟩ <;> cases h

theorem Act.keepsBodies {k id : Nat} {act : Act}
    (h : ∀ change, act = .change change → change.ofBody = false) :
    (act.section k id).keepsBodies := by
  intro id' change hsec
  cases act with
  | change c =>
      cases hsec
      exact h _ rfl
  | _ => cases hsec

theorem Errand.keepsBodies {id : Nat} {errand : Errand} (h : errand.ofBody = false) :
    (errand.section id).keepsBodies := by
  intro id' change hsec
  obtain ⟨-, rfl⟩ := Errand.section_update hsec
  exact h

/-- A move that says nothing of the body. -/
theorem Task.after_silent {s : State} {t : Task} {x : Handling} {op : Op} {m : Move}
    {sec : Section} (ht : t.Tidy) (hpc : t.pc = .serving x op []) (hm : Silent op m)
    (hsec : sec.keepsBodies) : t.Says s sec (t.after x m) ∧ (t.after x m).Tidy := by
  have hbody : (t.after x m).body = t.body := by
    unfold Task.after
    rw [hm.body]
  have hpc' : (t.after x m).pc = .serving x m.op m.todo := rfl
  have hunsent := Task.unsent_of_nil hpc
  have hunsent' := Task.unsent_of_op hpc' hm.sending
  refine ⟨.quiet hsec hbody (hunsent'.trans hunsent.symm) ?_, ?_, fun h => ?_, fun _ => ?_, ?_⟩
  · rw [Task.draft?_serving hpc, Task.draft?_serving hpc', hunsent, hunsent', Bool.or_false,
      Bool.or_false]
    cases hwhole : m.op.whole with
    | false => exact .inr rfl
    | true =>
        rw [hm.whole hwhole]
        exact .inl rfl
  · intro hsome
    rw [hbody] at hsome
    right
    refine ⟨x, m.op, m.todo, rfl, ?_⟩
    by_contra hwhole
    rcases ht.body hsome with hgone | ⟨y, op', todo, hserving, hop⟩
    · cases hpc.symm.trans hgone
    · cases hpc.symm.trans hserving
      cases hop.symm.trans (hm.whole (by simpa using hwhole))
  · cases hunsent'.symm.trans h
  · intro y op' todo hserving
    cases hserving
    exact hm.todo
  · rw [hbody]
    exact ht.errors

/-- The move that rewrites the request. -/
theorem Task.after_sends {s : State} {t : Task} {x : Handling} {op : Op} {m : Move}
    (ht : t.Tidy) (hpc : t.pc = .serving x op []) (hm : Sends x op m) :
    t.Says s .nothing (t.after x m) ∧ (t.after x m).Tidy := by
  obtain ⟨⟨authority, rfl, hop⟩, -, party, hparty, hexchange, htodo, hstores, hsays⟩ := hm
  have hbody : (t.after x m).body = some party := by
    unfold Task.after
    rw [hparty]
  have hpc' : (t.after x m).pc = .serving x (.sending authority) m.todo := by
    rw [← hop]
    rfl
  have hdraft : t.draft? = some x.id := by
    rw [Task.draft?_serving hpc]
    rfl
  have hnone : t.body = none := by
    cases hbody : t.body with
    | none => rfl
    | some old =>
        rcases ht.body (by rw [hbody]; rfl) with hgone | ⟨y, op', todo, hserving, hop'⟩
        · cases hpc.symm.trans hgone
        · cases hpc.symm.trans hserving
          cases hop'
  have herrors : ∀ party', (t.after x m).body = some party' → ∀ errand ∈ party'.todo,
      errand.ofBody = true → ∃ message, errand = .change (.requestBodyError message) := by
    intro party' hparty' errand herrand
    cases hbody.symm.trans hparty'
    rw [htodo] at herrand
    cases herrand
  rcases hsays with ⟨hnil, hcapture⟩ | ⟨change, hcons, hannounces⟩
  · rw [hnil] at hpc'
    have hunsent := Task.unsent_of_nil hpc'
    refine ⟨.rewrites hnone hbody htodo (.inr ⟨hunsent, ?_, ?_⟩),
      fun _ => .inr ⟨_, _, _, hpc', rfl⟩, fun h => ?_, fun _ y op' todo hserving => ?_, herrors⟩
    · rw [Task.draft?_serving hpc', hunsent]
      rfl
    · unfold BodyParty.pending
      rw [hcapture, hstores]
      rfl
    · cases hunsent.symm.trans h
    · cases hpc'.symm.trans hserving
      exact fun errand h => absurd h List.not_mem_nil
  · rw [hcons] at hpc'
    have hunsent : (t.after x m).unsent = true := Task.unsent_iff.mpr ⟨_, _, _, _, hpc'⟩
    refine ⟨.rewrites hnone hbody htodo (.inl ⟨hunsent, ?_⟩), fun _ => .inr ⟨_, _, _, hpc', rfl⟩,
      fun _ => ⟨x, authority, change, party, hpc', hbody, hexchange, htodo, hstores, hannounces⟩,
      fun h => ?_, herrors⟩
    · rw [Task.draft?_serving hpc', hunsent, hdraft, Bool.or_true]
      rfl
    · cases hunsent.symm.trans h

/-- An errand of a task. -/
theorem Task.errand_says {s : State} {t : Task} {x : Handling} {op : Op} {errand : Errand}
    {todo : List Errand} (ht : t.Tidy) (hpc : t.pc = .serving x op (errand :: todo)) :
    t.Says s (errand.section x.id) { t with pc := .serving x op todo } ∧
      Task.Tidy { t with pc := .serving x op todo } := by
  have hwhole (hsome : t.body.isSome = true) : op.whole = false := by
    rcases ht.body hsome with hgone | ⟨y, op', todo', hserving, hop⟩
    · cases hpc.symm.trans hgone
    · cases hpc.symm.trans hserving
      exact hop
  cases hunsent : t.unsent with
  | true =>
      obtain ⟨y, authority, change, party, hpc', hbody, hexchange, htodo, hstores, hannounces⟩ :=
        ht.unsent hunsent
      cases hpc.symm.trans hpc'
      have hsent : Task.unsent { t with pc := .serving x (.sending authority) [] } = false :=
        Task.unsent_of_nil rfl
      refine ⟨.announces ?_ ?_ hunsent hsent hbody hbody (by rw [hexchange]) htodo hstores
        hannounces, fun hsome => .inr ⟨_, _, _, rfl, hwhole hsome⟩, fun h => ?_,
        fun _ y op' todo hserving => ?_, ht.errors⟩
      · rw [Task.draft?_serving hpc, hunsent]
        rfl
      · exact (Task.draft?_serving rfl).trans (by rw [hsent]; rfl)
      · cases hsent.symm.trans h
      · cases hserving
        exact fun errand h => absurd h List.not_mem_nil
  | false =>
      have hop (authority : Authority) : op ≠ .sending authority := by
        rintro rfl
        cases hunsent.symm.trans (Task.unsent_iff.mpr ⟨_, _, _, _, hpc⟩)
      have hsent : Task.unsent { t with pc := .serving x op todo } = false :=
        Task.unsent_of_op rfl hop
      have hquiet := ht.todo hunsent _ _ _ hpc
      refine ⟨.quiet (Errand.keepsBodies (hquiet _ List.mem_cons_self)) rfl
        (hsent.trans hunsent.symm) (.inl ?_), fun hsome => .inr ⟨_, _, _, rfl, hwhole hsome⟩,
        fun h => ?_, fun _ y op' todo' hserving => ?_, ht.errors⟩
      · rw [Task.draft?_serving hpc, hunsent]
        exact (Task.draft?_serving rfl).trans (by rw [hsent])
      · cases hsent.symm.trans h
      · cases hserving
        exact fun errand h => hquiet errand (List.mem_cons_of_mem _ h)

/-- A task that is not serving, and keeps its body. -/
theorem Task.Tidy.of_pc {t t' : Task} (ht : t.Tidy) (hbody : t'.body = t.body)
    (hpc' : ∀ x op todo, t'.pc ≠ .serving x op todo)
    (hgone : t.body.isSome = true → t'.pc = .gone) : t'.Tidy := by
  refine ⟨fun hsome => .inl (hgone (hbody ▸ hsome)), fun h => ?_, fun _ x op todo h => ?_, ?_⟩
  · cases (Task.unsent_of_pc hpc').symm.trans h
  · exact absurd h (hpc' _ _ _)
  · rw [hbody]
    exact ht.errors

/-- A task that is dropped, and keeps its body. -/
theorem Task.drop_says {s : State} {t : Task} (ht : t.Tidy)
    (hunsent : t.unsent = false) :
    t.Says s .nothing { t with pc := .gone } ∧ Task.Tidy { t with pc := .gone } := by
  have hpc' : ∀ x op todo, Task.pc { t with pc := .gone } ≠ .serving x op todo := by
    intro x op todo h
    cases h
  refine ⟨.quiet keepsBodies_nothing rfl ?_ (.inr (Task.draft?_of_pc hpc')), ?_⟩
  · exact (Task.unsent_of_pc hpc').trans hunsent.symm
  · exact ht.of_pc rfl hpc' fun _ => rfl

/-- A step that does not serve an exchange, before or after. -/
theorem Task.before_says {s : State} {t t' : Task} {sec : Section} (ht : t.Tidy)
    (hbody : t.body = none) (hunsent : t.unsent = false) (hsec : sec.keepsBodies)
    (hbody' : t'.body = t.body) (hpc' : ∀ x op todo, t'.pc ≠ .serving x op todo) :
    t.Says s sec t' ∧ t'.Tidy := by
  refine ⟨.quiet hsec hbody' ?_ (.inr (Task.draft?_of_pc hpc')), ?_⟩
  · exact (Task.unsent_of_pc hpc').trans hunsent.symm
  · refine ht.of_pc hbody' hpc' fun hsome => ?_
    rw [hbody] at hsome
    cases hsome

/-- The step that begins an exchange. -/
theorem Task.begin_says {s : State} {t : Task} {sec : Section} {x : Handling}
    {op : Op} (ht : t.Tidy) (hbody : t.body = none) (hunsent : t.unsent = false)
    (hdraft : t.draft? = none) (hsec : sec.keepsBodies) (hbegins : sec.begins.isSome = true)
    (hid : x.id = s.nextId) (hop : op.whole = true) :
    t.Says s sec { t with pc := .serving x op [] } ∧
      Task.Tidy { t with pc := .serving x op [] } := by
  have hunsent' : Task.unsent { t with pc := .serving x op [] } = false := Task.unsent_of_nil rfl
  refine ⟨.begins hsec hbegins rfl (hunsent'.trans hunsent.symm) hdraft ?_, ?_, ?_, ?_, ht.errors⟩
  · refine (Task.draft?_serving rfl).trans ?_
    rw [hop, hid]
    rfl
  · intro hsome
    rw [show Task.body { t with pc := .serving x op [] } = t.body from rfl, hbody] at hsome
    cases hsome
  · intro h
    cases hunsent'.symm.trans h
  · intro _ y op' todo hpc' errand herrand
    cases hpc'
    cases herrand

/-- **What a step of a task makes of its request body.** -/
theorem Task.step_says {crypto : Crypto} {s : State} {now k : Nat} {t t' : Task} {a : Answer}
    {sec : Section} (h : t.step crypto s now k a = some (sec, t')) (ht : t.Tidy) :
    t.Says s sec t' ∧ t'.Tidy := by
  have hmoved := Task.step_cases h
  unfold Task.step at h
  split at h
  -- an errand
  next x op errand todo hpc =>
    split at h <;> cases h
    exact Task.errand_says ht hpc
  next x op hpc =>
    split at h
    next =>
      split at h <;> cases h
      exact Task.drop_says ht (Task.unsent_of_nil hpc)
    next =>
      split at h
      next =>
        split at h <;> cases h
        exact Task.after_silent ht hpc (silent_refuse ..) keepsBodies_nothing
      next =>
        obtain ⟨m, hm, heq⟩ := Option.map_eq_some_iff.mp h
        cases heq
        rcases sends_of_step hm with hsends | hsilent
        · rw [hsends.act]
          exact Task.after_sends ht hpc hsends
        · exact Task.after_silent ht hpc hsilent (Act.keepsBodies hsilent.act)
  -- before the exchange
  next hcons hnil =>
    have hserving : ∀ x op todo, t.pc ≠ .serving x op todo := by
      intro x op todo hpc
      cases todo with
      | nil => exact hnil _ _ hpc
      | cons errand todo => exact hcons _ _ _ _ hpc
    have hunsent := Task.unsent_of_pc hserving
    have hnone (hpc : t.pc ≠ .gone) : t.body = none := by
      cases hbody : t.body with
      | none => rfl
      | some party =>
          rcases ht.body (by rw [hbody]; rfl) with hgone | ⟨x, op, todo, hpc', -⟩
          · exact absurd hgone hpc
          · exact absurd hpc' (hserving _ _ _)
    cases hmoved with
    | errand hpc => exact absurd hpc (hserving _ _ _)
    | deadline hpc => exact absurd hpc (hserving _ _ _)
    | asked hpc => exact absurd hpc (hserving _ _ _)
    | answered hpc => exact absurd hpc (hserving _ _ _)
    | drop => exact Task.drop_says ht hunsent
    | arrive hpc =>
        refine Task.before_says ht (hnone ?_) hunsent keepsBodies_nothing rfl ?_
        · rw [hpc]
          exact Pc.noConfusion
        · exact fun _ _ _ => Pc.noConfusion
    | admits _ hpc hsec =>
        refine Task.before_says ht (hnone ?_) hunsent (keepsBodies_token hsec) rfl ?_
        · rw [hpc]
          exact Pc.noConfusion
        · exact fun _ _ _ => Pc.noConfusion
    | unauthorized hpc hsec =>
        refine Task.before_says ht (hnone ?_) hunsent (keepsBodies_token hsec) rfl ?_
        · rw [hpc]
          exact Pc.noConfusion
        · exact fun _ _ _ => Pc.noConfusion
    | classify hpc =>
        refine Task.before_says ht (hnone ?_) hunsent keepsBodies_nothing rfl ?_
        · rw [hpc]
          exact Pc.noConfusion
        · exact fun _ _ _ => Pc.noConfusion
    | forbid hpc =>
        refine Task.before_says ht (hnone ?_) hunsent keepsBodies_nothing rfl ?_
        · rw [hpc]
          exact Pc.noConfusion
        · exact fun _ _ _ => Pc.noConfusion
    | begin hpc hreplay =>
        refine Task.begin_says ht (hnone ?_) hunsent (Task.draft?_of_pc hserving) ?_ rfl rfl ?_
        · rw [hpc]
          exact Pc.noConfusion
        · intro id change h
          cases h
        · split <;> rfl

/-! ## The accounts of one exchange -/

/-- Has the request body of exchange `id` an error to report? -/
def Task.fails (id : Nat) (t : Task) : Bool :=
  t.body.any fun party => party.exchange.id = id && party.todo.any Errand.ofBody

theorem Task.drafts_le {t t' : Task} (h : t'.draft? = t.draft? ∨ t'.draft? = none) (id : Nat) :
    t'.drafts id ≤ t.drafts id := by
  unfold Task.drafts
  rcases h with h | h
  · rw [h]
  · rw [h, if_neg (by simp)]
    exact Nat.zero_le _

theorem Task.recordings_eq {t t' : Task} (hbody : t'.body = t.body) (hunsent : t'.unsent = t.unsent)
    (id : Nat) : t'.recordings id = t.recordings id := by
  unfold Task.recordings
  rw [hbody, hunsent]

theorem Task.recordings_of_none {t : Task} (h : t.body = none) (id : Nat) :
    t.recordings id = 0 := by
  unfold Task.recordings
  rw [h]

theorem Task.recordings_of_unsent {t : Task} (h : t.unsent = true) (id : Nat) :
    t.recordings id = 0 := by
  unfold Task.recordings
  split
  · rw [if_neg]
    rintro ⟨-, hsent⟩
    cases hsent.symm.trans h
  · rfl

theorem Task.recordings_some {t : Task} {party : BodyParty} (h : t.body = some party)
    (hsent : t.unsent = false) (id : Nat) :
    t.recordings id = if party.exchange.id = id then party.pending else 0 := by
  unfold Task.recordings
  rw [h]
  simp [hsent]

theorem Task.fails_of_none {t : Task} (h : t.body = none) (id : Nat) : t.fails id = false := by
  unfold Task.fails
  rw [h]
  rfl

theorem Task.fails_of_nil {t : Task} {party : BodyParty} (h : t.body = some party)
    (htodo : party.todo = []) (id : Nat) : t.fails id = false := by
  unfold Task.fails
  rw [h]
  simp [htodo]

/-- What a step of a task makes of the accounts of exchange `id`. -/
inductive Task.Accounts (s : State) (id : Nat) (t : Task) : Section → Task → Prop
  | quiet {sec t'} : (∀ change, sec = .update id change → change.ofBody = false) →
      t'.drafts id ≤ t.drafts id → t'.recordings id = t.recordings id →
      (t'.fails id = true → t.fails id = true) → Accounts s id t sec t'
  | begins {sec t'} : sec.begins.isSome = true → id = s.nextId → t'.drafts id = t.drafts id + 1 →
      t'.recordings id = t.recordings id → (t'.fails id = true → t.fails id = true) →
      Accounts s id t sec t'
  | announces {change capture t'} : Announces change capture → t.drafts id = t'.drafts id + 1 →
      t'.recordings id = t.recordings id + capture.toList.length →
      (t'.fails id = true → t.fails id = true) → Accounts s id t (.update id change) t'

theorem Task.Says.accounts {s : State} {t t' : Task} {sec : Section} (h : t.Says s sec t')
    (id : Nat) : t.Accounts s id sec t' := by
  have hkeeps {t' : Task} (hbody : t'.body = t.body) : t'.fails id = true → t.fails id = true := by
    unfold Task.fails
    rw [hbody]
    exact fun h => h
  cases h with
  | quiet hsec hbody hunsent hdraft =>
      exact .quiet (hsec id) (Task.drafts_le hdraft id) (Task.recordings_eq hbody hunsent id)
        (hkeeps hbody)
  | begins hsec hbegins hbody hunsent hdraft hdraft' =>
      have hrecordings := Task.recordings_eq hbody hunsent id
      by_cases hid : id = s.nextId
      · refine .begins hbegins hid ?_ hrecordings (hkeeps hbody)
        unfold Task.drafts
        rw [hdraft, hdraft', hid, if_pos rfl, if_neg (by simp)]
      · refine .quiet (hsec id) ?_ hrecordings (hkeeps hbody)
        unfold Task.drafts
        rw [hdraft', if_neg]
        · exact Nat.zero_le _
        · intro heq
          exact hid (Option.some.inj heq).symm
  | rewrites hnone hbody htodo hcase =>
      have hfails : t'.fails id = true → t.fails id = true := by
        rw [Task.fails_of_nil hbody htodo]
        intro h
        cases h
      have hsec : ∀ change, Section.nothing = .update id change → change.ofBody = false :=
        keepsBodies_nothing id
      rcases hcase with ⟨hunsent, hdraft⟩ | ⟨hsent, hdraft, hpending⟩
      · refine .quiet hsec (Task.drafts_le (.inl hdraft) id) ?_ hfails
        rw [Task.recordings_of_unsent hunsent, Task.recordings_of_none hnone]
      · refine .quiet hsec (Task.drafts_le (.inr hdraft) id) ?_ hfails
        rw [Task.recordings_some hbody hsent, Task.recordings_of_none hnone, hpending, ite_self]
  | announces hdraft hdraft' hunsent hsent hbody hbody' hexchange htodo hstores hannounces =>
      next id' change party =>
      have hfails : t'.fails id = true → t.fails id = true := by
        rw [Task.fails_of_nil hbody' htodo]
        intro h
        cases h
      by_cases hid : id' = id
      · subst hid
        refine .announces hannounces ?_ ?_ hfails
        · unfold Task.drafts
          rw [hdraft, hdraft', if_pos rfl, if_neg (by simp)]
        · rw [Task.recordings_some hbody' hsent, Task.recordings_of_unsent hunsent,
            if_pos hexchange, Nat.zero_add, BodyParty.pending, hstores]
          rfl
      · refine .quiet ?_ (Task.drafts_le (.inr hdraft') id) ?_ hfails
        · intro change' heq
          cases heq
          exact absurd rfl hid
        · rw [Task.recordings_some hbody' hsent, Task.recordings_of_unsent hunsent, if_neg]
          rw [hexchange]
          exact hid

/-! ## Polls of a request body -/

/-- What a step of the body of exchange `id` leaves to be told. -/
theorem RequestBody.pollFrame_ends {body : RequestBody} {poll : Poll} (h : body.ends poll = true) :
    (body.pollFrame poll).1.capture.toList.length + (storeOps (body.pollFrame poll).2).length =
        body.capture.toList.length ∧
      ((∃ message, BodyEffect.requestBodyError message ∈ (body.pollFrame poll).2) →
        poll = .error) := by
  obtain ⟨capture, contentType, limit, redactionPaths⟩ := body
  cases capture with
  | none =>
      rcases poll with _ | ⟨_ | _, _ | _⟩ | _ | _ <;>
        simp [RequestBody.pollFrame, RequestBody.collect, RequestBody.finishCapture, observed,
          storeOps]
  | some buffer =>
      rcases poll with _ | ⟨bytes | _, _ | _⟩ | _ | _ <;>
        simp_all [RequestBody.pollFrame, RequestBody.collect, RequestBody.finishCapture, observed,
          storeOps, RequestBody.ends]
      -- the last of the data, which is not empty
      rw [if_neg fun hempty => h.2 hempty.1 hempty.2]
      rfl

theorem RequestBody.finishCapture_le (body : RequestBody) :
    (body.finishCapture).1.capture.toList.length + (storeOps (body.finishCapture).2).length ≤
      body.capture.toList.length := by
  unfold RequestBody.finishCapture
  split
  next h => exact Nat.le_refl _
  next bytes h =>
    rw [h]
    show 0 + (storeOps _).length ≤ 1
    split <;> simp [storeOps]

theorem RequestBody.collect_le (body : RequestBody) (frame : Frame) :
    (body.collect frame).1.capture.toList.length ≤ body.capture.toList.length ∧
      storeOps (body.collect frame).2 = [] := by
  unfold RequestBody.collect
  split
  next => exact ⟨Nat.le_refl _, rfl⟩
  next =>
    split
    next h => exact ⟨Nat.le_refl _, rfl⟩
    next buffer h =>
      rw [h]
      split
      · exact ⟨Nat.le_refl _, rfl⟩
      · exact ⟨Nat.zero_le _, rfl⟩

theorem RequestBody.pollFrame_le (body : RequestBody) (poll : Poll) :
    (body.pollFrame poll).1.capture.toList.length + (storeOps (body.pollFrame poll).2).length ≤
      body.capture.toList.length := by
  cases poll with
  | pending => exact Nat.le_refl _
  | done => exact body.finishCapture_le
  | error => exact Nat.zero_le _
  | frame frame last =>
      obtain ⟨hle, hnil⟩ := body.collect_le frame
      have hfinish := (body.collect frame).1.finishCapture_le
      simp only [RequestBody.pollFrame, storeOps_append, storeOps_observed, hnil]
      cases last with
      | true => exact hfinish.trans hle
      | false => exact hle

/-- The errands of a poll. An error is among them when there is one to report. -/
theorem BodyEffect.errands_ofBody {x : Exchange} {effects : List BodyEffect} {errand : Errand}
    (h : errand ∈ effects.flatMap (BodyEffect.errands x)) (hbody : errand.ofBody = true) :
    ∃ message, errand = .change (.requestBodyError message) ∧
      BodyEffect.requestBodyError message ∈ effects := by
  obtain ⟨effect, heffect, herrand⟩ := List.mem_flatMap.mp h
  cases effect with
  | requestBytes count =>
      rw [List.mem_singleton.mp herrand] at hbody
      cases hbody
  | finish message =>
      rw [ofBody_finish x _ _ herrand] at hbody
      cases hbody
  | requestBodyError message => exact ⟨message, List.mem_singleton.mp herrand, heffect⟩
  | store bytes => cases herrand

/-! ## What an event makes of the recording -/

/-- The errors that wait to be reported were waiting before, or the body had been given up. -/
def Engine.Fails (s : Engine) (id : Nat) (p : Parties) : Prop :=
  (∃ t ∈ p.tasks, t.fails id = true) → (∃ t ∈ s.tasks, t.fails id = true) ∨
    s.shared.Retained id ∧ ∀ c ∈ s.shared.traffic, c.id = id → c.requestBodyState = .unavailable

/-- What an event makes of the accounts of exchange `id`. -/
inductive Engine.Tells (s : Engine) (id : Nat) : Section → Parties → Prop
  | quiet {sec p} : (∀ change, sec = .update id change → change.ofBody = false) →
      p.drafts id ≤ s.drafts id → p.recordings id = s.recordings id → s.Fails id p →
      Tells s id sec p
  /-- The capture is gone. -/
  | gone {sec p} : ¬ s.shared.Retained id → sec.begins = none → p.drafts id ≤ s.drafts id →
      p.recordings id ≤ s.recordings id → Tells s id sec p
  | begins {sec p} : sec.begins.isSome = true → id = s.shared.nextId →
      p.drafts id = s.drafts id + 1 → p.recordings id = s.recordings id → s.Fails id p →
      Tells s id sec p
  | announces {change capture p} : Announces change capture → s.drafts id = p.drafts id + 1 →
      p.recordings id = s.recordings id + capture.toList.length → s.Fails id p →
      Tells s id (.update id change) p
  | fails {message p} : (∃ t ∈ s.tasks, t.fails id = true) → p.drafts id = s.drafts id →
      p.recordings id = s.recordings id → s.Fails id p →
      Tells s id (.update id (.requestBodyError message)) p
  | reports {change p} :
      (change = .requestBody .complete ∨ ∃ message, change = .requestUnavailable message) →
      p.drafts id = s.drafts id → s.recordings id = p.recordings id + 1 → s.Fails id p →
      Tells s id (.update id change) p

/-- Changing one task. -/
theorem Engine.fails_set {s : Engine} {id k : Nat} {t t' : Task} {p : Parties}
    (hk : s.tasks[k]? = some t) (hp : p.tasks = s.tasks.set k t')
    (h : t'.fails id = true → t.fails id = true) : s.Fails id p := by
  rintro ⟨u, hu, hfails⟩
  rw [hp] at hu
  rcases List.mem_or_eq_of_mem_set hu with hu | rfl
  · exact .inl ⟨u, hu, hfails⟩
  · exact .inl ⟨t, List.mem_of_getElem? hk, h hfails⟩

theorem Engine.fails_same {s : Engine} {id : Nat} {p : Parties} (hp : p.tasks = s.tasks) :
    s.Fails id p := by
  intro h
  rw [hp] at h
  exact .inl h

/-- An event that leaves tasks and store tasks alone. -/
theorem Engine.Tells.aside {s : Engine} {id : Nat} {sec : Section} {p : Parties}
    (hsec : ∀ change, sec = .update id change → change.ofBody = false) (htasks : p.tasks = s.tasks)
    (hstores : p.stores = s.stores) : s.Tells id sec p := by
  refine .quiet hsec ?_ ?_ (fails_same htasks)
  · rw [Parties.drafts, htasks]
    exact Nat.le_refl _
  · rw [Parties.recordings, htasks, hstores]
    rfl

/-- A step of a task. -/
theorem Engine.tells_task {s : Engine} {id k : Nat} {t t' : Task} {sec : Section} {p : Parties}
    (hk : s.tasks[k]? = some t) (htasks : p.tasks = s.tasks.set k t')
    (hstores : p.stores = s.stores) (h : t.Accounts s.shared id sec t') : s.Tells id sec p := by
  have hdrafts := total_set (f := Task.drafts id) hk t'
  have hrecordings := total_set (f := Task.recordings id) hk t'
  have hpdrafts : p.drafts id = total (Task.drafts id) (s.tasks.set k t') := by
    rw [Parties.drafts, htasks]
  have hprecordings : p.recordings id =
      total (Task.recordings id) (s.tasks.set k t') + total (StoreTask.recordings id) s.stores := by
    rw [Parties.recordings, htasks, hstores]
  have hsdrafts : s.drafts id = total (Task.drafts id) s.tasks := rfl
  have hsrecordings : s.recordings id =
      total (Task.recordings id) s.tasks + total (StoreTask.recordings id) s.stores := rfl
  cases h with
  | quiet hsec hd hr hf => exact .quiet hsec (by omega) (by omega) (fails_set hk htasks hf)
  | begins hbegins hid hd hr hf =>
      exact .begins hbegins hid (by omega) (by omega) (fails_set hk htasks hf)
  | announces hannounces hd hr hf =>
      exact .announces hannounces (by omega) (by omega) (fails_set hk htasks hf)

theorem Section.begins_of_errand (id : Nat) (errand : Errand) :
    (errand.section id).begins = none := by
  cases errand <;> rfl

/-- What a step of a request body does, seen from its exchange. -/
theorem BodyParty.step_accounts {party : BodyParty} {a : BodyAnswer} {move : BodyMove}
    (h : party.step a = some move)
    (herrors : ∀ errand ∈ party.todo, errand.ofBody = true →
      ∃ message, errand = .change (.requestBodyError message)) :
    (move.sec.keepsBodies ∨ ∃ message todo,
        party.todo = .change (.requestBodyError message) :: todo ∧
        move.sec = .update party.exchange.id (.requestBodyError message)) ∧
      (∀ party', move.party = some party' → (∀ errand ∈ party'.todo, errand.ofBody = true →
        ∃ message, errand = .change (.requestBodyError message))) := by
  unfold BodyParty.step at h
  split at h
  next errand todo htodo =>
    cases h
    refine ⟨?_, fun party' hparty' => ?_⟩
    · cases hbody : errand.ofBody with
      | false => exact .inl (Errand.keepsBodies hbody)
      | true =>
          obtain ⟨message, rfl⟩ := herrors errand (htodo ▸ List.mem_cons_self) hbody
          exact .inr ⟨message, todo, htodo, rfl⟩
    · cases hparty'
      exact fun errand' herrand => herrors errand' (htodo ▸ List.mem_cons_of_mem _ herrand)
  next htodo hstores =>
    cases h
    refine ⟨.inl keepsBodies_nothing, fun party' hparty' => ?_⟩
    cases hparty'
    exact herrors
  next =>
    cases h
    refine ⟨.inl keepsBodies_nothing, fun party' hparty' => ?_⟩
    cases hparty'
    intro errand herrand hbody
    obtain ⟨message, heq, -⟩ := BodyEffect.errands_ofBody herrand hbody
    exact ⟨message, heq⟩
  next =>
    cases h
    refine ⟨.inl keepsBodies_nothing, fun party' hparty' => ?_⟩
    cases hparty'
  next => cases h

/-- A step of a request body hands what is to be told of to a store task, if it ends as it should;
and adds an error only to those there are, or to a body that was given up. -/
theorem BodyParty.step_pending {s : State} {party : BodyParty} {a : BodyAnswer} {move : BodyMove}
    (h : party.step a = some move) (hends : party.ends s a = true) :
    (move.party.map BodyParty.pending).getD 0 + move.store.toList.length = party.pending ∧
      ∀ party', move.party = some party' → party'.todo.any Errand.ofBody = true →
        party.todo.any Errand.ofBody = true ∨
          ∀ c ∈ s.traffic, c.id = party.exchange.id → c.requestBodyState = .unavailable := by
  unfold BodyParty.step at h
  split at h
  next errand todo htodo =>
    cases h
    refine ⟨rfl, fun party' hparty' hany => .inl ?_⟩
    cases hparty'
    rw [htodo, List.any_cons, Bool.or_eq_true]
    exact .inr hany
  next stores htodo hstores =>
    cases h
    refine ⟨?_, fun party' hparty' hany => .inl ?_⟩
    · show party.body.capture.toList.length + stores.length + 1 = party.pending
      rw [BodyParty.pending, hstores]
      rfl
    · cases hparty'
      exact hany
  next poll htodo hstores =>
    cases h
    rw [BodyParty.ends, Bool.and_eq_true] at hends
    obtain ⟨hpending, herror⟩ := RequestBody.pollFrame_ends hends.1
    refine ⟨?_, fun party' hparty' hany => .inr ?_⟩
    · show (party.body.pollFrame poll).1.capture.toList.length +
        (storeOps (party.body.pollFrame poll).2).length + 0 = party.pending
      rw [BodyParty.pending, hstores, Nat.add_zero, hpending]
      rfl
    · cases hparty'
      obtain ⟨errand, herrand, hbody⟩ := List.any_eq_true.mp hany
      obtain ⟨message, -, heffect⟩ := BodyEffect.errands_ofBody herrand hbody
      have hpoll := herror ⟨message, heffect⟩
      rw [hpoll, Bool.or_eq_true] at hends
      intro c hc hid
      have hgiven := List.all_eq_true.mp (hends.2.resolve_left (by simp)) c hc
      simpa [hid] using hgiven
  next htodo hstores =>
    cases h
    refine ⟨?_, fun party' hparty' => by cases hparty'⟩
    show 0 + 0 = party.pending
    rw [BodyParty.pending, hstores, Option.isNone_iff_eq_none.mp hends]
    rfl
  next => cases h

/-- Whatever becomes of the body, no more is left to be told of. -/
theorem BodyParty.step_pending_le {party : BodyParty} {a : BodyAnswer} {move : BodyMove}
    (h : party.step a = some move) :
    (move.party.map BodyParty.pending).getD 0 + move.store.toList.length ≤ party.pending := by
  unfold BodyParty.step at h
  split at h
  next =>
    cases h
    exact Nat.le_refl _
  next stores htodo hstores =>
    cases h
    show party.body.capture.toList.length + stores.length + 1 ≤ party.pending
    rw [BodyParty.pending, hstores]
    exact Nat.le_refl _
  next poll htodo hstores =>
    cases h
    show (party.body.pollFrame poll).1.capture.toList.length +
      (storeOps (party.body.pollFrame poll).2).length + 0 ≤ party.pending
    rw [BodyParty.pending, hstores]
    exact RequestBody.pollFrame_le party.body poll
  next htodo hstores =>
    cases h
    exact Nat.zero_le _
  next => cases h

theorem BodyParty.step_store {party : BodyParty} {a : BodyAnswer} {move : BodyMove}
    (h : party.step a = some move) {store : StoreTask} (hstore : move.store = some store) :
    store = ⟨party.exchange, .storing⟩ := by
  unfold BodyParty.step at h
  split at h <;> cases h
  all_goals cases hstore
  rfl

/-- The accounts of the body of a task. -/
theorem Engine.recordings_body {s : Engine} (id : Nat) {k : Nat} {t : Task} {party : BodyParty}
    {a : BodyAnswer} {move : BodyMove} (hk : s.tasks[k]? = some t) (hbody : t.body = some party)
    (hstep : party.step a = some move) (hsent : t.unsent = false) {p : Parties}
    (hp : p = { s.toParties with
      tasks := s.tasks.set k { t with body := move.party }
      stores := s.stores ++ move.store.toList }) :
    p.drafts id = s.drafts id ∧
      p.recordings id + (if party.exchange.id = id then party.pending else 0) =
        s.recordings id + if party.exchange.id = id then
        (move.party.map BodyParty.pending).getD 0 + move.store.toList.length else 0 := by
  subst hp
  have hdrafts := total_set (f := Task.drafts id) hk { t with body := move.party }
  have hrecordings := total_set (f := Task.recordings id) hk { t with body := move.party }
  obtain ⟨hparty, hstore, -⟩ := BodyParty.step_holds hstep
  have hbefore := Task.recordings_some hbody hsent id
  have hafter : Task.recordings id { t with body := move.party } =
      if party.exchange.id = id then (move.party.map BodyParty.pending).getD 0 else 0 := by
    cases hmove : move.party with
    | none =>
        rw [Task.recordings_of_none rfl]
        split <;> rfl
    | some party' =>
        refine (Task.recordings_some (t := { t with body := some party' }) rfl hsent id).trans ?_
        rw [hparty party' hmove]
        rfl
  have hstores : total (StoreTask.recordings id) move.store.toList =
      if party.exchange.id = id then move.store.toList.length else 0 := by
    cases hmove : move.store with
    | none => exact (ite_self _).symm
    | some store =>
        rw [BodyParty.step_store hstep hmove]
        exact Nat.add_zero _
  refine ⟨?_, ?_⟩
  · show total _ (s.tasks.set k _) = total _ s.tasks
    have hsame : Task.drafts id { t with body := move.party } = Task.drafts id t := rfl
    omega
  · show total _ (s.tasks.set k _) + total _ (s.stores ++ _) + _ =
      total _ s.tasks + total _ s.stores + _
    rw [total_append, hstores]
    rw [hbefore, hafter] at hrecordings
    split
    next hid =>
      rw [if_pos hid, if_pos hid] at hrecordings
      omega
    next hid =>
      rw [if_neg hid, if_neg hid] at hrecordings
      omega

/-- A step of a request body. -/
theorem Engine.tells_body {s : Engine} {id k : Nat} {t : Task} {party : BodyParty} {a : BodyAnswer}
    {move : BodyMove} (hk : s.tasks[k]? = some t) (ht : t.Tidy) (hbody : t.body = some party)
    (hstep : party.step a = some move) (hsent : t.unsent = false)
    (hends : s.bodyEnds id (.body k a) = true) :
    s.Tells id move.sec { s.toParties with
      tasks := s.tasks.set k { t with body := move.party }
      stores := s.stores ++ move.store.toList } := by
  obtain ⟨hdrafts, hrecordings⟩ := recordings_body id hk hbody hstep hsent rfl
  obtain ⟨hsec, -⟩ := BodyParty.step_accounts hstep (ht.errors party hbody)
  obtain ⟨hparty, -, -⟩ := BodyParty.step_holds hstep
  by_cases hid : party.exchange.id = id
  · rw [if_pos hid, if_pos hid] at hrecordings
    by_cases hretained : s.shared.Retained id
    · -- the capture is there, and the step is one of those that leave somebody to tell of the body
      have hends : party.ends s.shared a = true := by
        unfold bodyEnds at hends
        simpa [hk, hbody, hid, hretained] using hends
      obtain ⟨hpending, htodo⟩ := BodyParty.step_pending hstep hends
      have hsame : Parties.recordings { s.toParties with
          tasks := s.tasks.set k { t with body := move.party }
          stores := s.stores ++ move.store.toList } id = s.recordings id := by
        omega
      have hfails : s.Fails id { s.toParties with
          tasks := s.tasks.set k { t with body := move.party }
          stores := s.stores ++ move.store.toList } := by
        rintro ⟨u, hu, hfails⟩
        rcases List.mem_or_eq_of_mem_set hu with hu | rfl
        · exact .inl ⟨u, hu, hfails⟩
        · unfold Task.fails at hfails
          obtain ⟨party', hparty', hfails⟩ := (Option.any_eq_true _ _).mp hfails
          rw [Bool.and_eq_true] at hfails
          rcases htodo party' hparty' hfails.2 with htodo | hgiven
          · refine .inl ⟨t, List.mem_of_getElem? hk, ?_⟩
            unfold Task.fails
            rw [hbody]
            simp [hid, htodo]
          · exact .inr ⟨hretained, hid ▸ hgiven⟩
      rcases hsec with hsec | ⟨message, todo, htodo', hsec⟩
      · exact .quiet (hsec id) (Nat.le_of_eq hdrafts) hsame hfails
      · rw [hsec, hid]
        refine .fails ⟨t, List.mem_of_getElem? hk, ?_⟩ hdrafts hsame hfails
        unfold Task.fails
        rw [hbody]
        simp [hid, htodo', Errand.ofBody, Change.ofBody]
    · have hle := BodyParty.step_pending_le hstep
      refine .gone hretained ?_ (Nat.le_of_eq hdrafts) (by omega)
      unfold BodyParty.step at hstep
      split at hstep <;> cases hstep
      · exact Section.begins_of_errand ..
      all_goals rfl
  · rw [if_neg hid, if_neg hid] at hrecordings
    refine .quiet ?_ (Nat.le_of_eq hdrafts) (by omega) (fails_set hk rfl fun hfails => ?_)
    · intro change heq
      rcases hsec with hsec | ⟨message, todo, -, hsec⟩
      · exact hsec id change heq
      · cases hsec.symm.trans heq
        exact absurd rfl hid
    · unfold Task.fails at hfails
      obtain ⟨party', hparty', hfails⟩ := (Option.any_eq_true _ _).mp hfails
      rw [Bool.and_eq_true, hparty party' hparty'] at hfails
      exact absurd (of_decide_eq_true hfails.1) hid

/-- A step of a store task. -/
theorem Engine.tells_store {s : Engine} {id k : Nat} {store store' : StoreTask}
    {error : Option String} {sec : Section} (hk : s.stores[k]? = some store)
    (hstep : store.step s.shared error = some (sec, store')) :
    s.Tells id sec { s.toParties with stores := s.stores.set k store' } := by
  have hstores := total_set (f := StoreTask.recordings id) hk store'
  have hle := le_total (f := StoreTask.recordings id) hk
  have hquiet {sec : Section} (hsec : ∀ change, sec = .update id change → change.ofBody = false)
      (hsame : store'.recordings id = store.recordings id) :
      s.Tells id sec { s.toParties with stores := s.stores.set k store' } := by
    refine .quiet hsec (Nat.le_refl _) ?_ (fails_same rfl)
    show total _ s.tasks + total _ (s.stores.set k store') = total _ s.tasks + total _ s.stores
    omega
  -- the operation has returned, and its error is told of
  have hreports {change : Change} (hchange : change = .requestBody .complete ∨
        ∃ message, change = .requestUnavailable message)
      (hbefore : store.recordings id = if store.exchange.id = id then 1 else 0)
      (hafter : store'.recordings id = 0) :
      s.Tells id (.update store.exchange.id change)
        { s.toParties with stores := s.stores.set k store' } := by
    by_cases hid : store.exchange.id = id
    · rw [hid]
      rw [if_pos hid] at hbefore
      refine .reports hchange rfl ?_ (fails_same rfl)
      show total _ s.tasks + total _ s.stores =
        total _ s.tasks + total _ (s.stores.set k store') + 1
      omega
    · rw [if_neg hid] at hbefore
      refine hquiet ?_ (hafter.trans hbefore.symm)
      intro change' heq
      cases heq
      exact absurd rfl hid
  unfold StoreTask.step at hstep
  simp only at hstep
  split at hstep <;> cases hstep
  next hpoint =>
    refine hquiet ?_ ?_
    · intro change h
      split at h <;> cases h
    · unfold StoreTask.recordings
      rw [hpoint]
  next hpoint => exact hreports (.inl rfl) (by rw [StoreTask.recordings, hpoint]) rfl
  next message hpoint =>
    exact hreports (.inr ⟨message, rfl⟩) (by rw [StoreTask.recordings, hpoint]) rfl
  next hpoint =>
    refine hquiet ?_ (by rw [StoreTask.recordings, StoreTask.recordings, hpoint])
    intro change h
    cases h
  next hpoint =>
    refine hquiet (keepsBodies_nothing id) ?_
    rw [StoreTask.recordings, StoreTask.recordings, hpoint]
    split
    next h => split at h <;> cases h
    next h => split at h <;> cases h
    next => rfl
  next hpoint =>
    refine hquiet ?_ (by rw [StoreTask.recordings, StoreTask.recordings, hpoint])
    intro change h
    cases h

theorem Task.receive_keeps {t t' : Task} {decision : BreakpointDecision}
    (h : t.receive decision = some t') :
    t'.draft? = t.draft? ∧ t'.body = t.body ∧ t'.unsent = t.unsent := by
  unfold Task.receive at h
  split at h
  next hpc =>
    cases h
    have hunsent := Task.unsent_of_nil hpc
    refine ⟨?_, rfl, (Task.unsent_of_nil rfl).trans hunsent.symm⟩
    rw [Task.draft?_serving hpc, hunsent]
    rfl
  next => cases h

/-- The first request in a tunnel takes over what is still to be said. -/
theorem Engine.tells_innerFirst {s : Engine} {id k : Nat} {request : Request} {t : Task}
    {x : Handling} {authority : Authority} {route : TlsInterceptRoute} {http2 : Bool}
    (hk : s.tasks[k]? = some t) (hpc : t.pc = .serving x (.serving authority route http2 true) []) :
    s.Tells id .nothing { s.toParties with
      tasks :=
        s.tasks.set k { t with pc := .serving x (.serving authority route http2 false) [] } ++
        [t.inner k authority http2 { x with request, replay := none }] } := by
  obtain ⟨u, hu⟩ : ∃ u : Task,
      u = { t with pc := .serving x (.serving authority route http2 false) [] } := ⟨_, rfl⟩
  obtain ⟨v, hv⟩ : ∃ v, v = t.inner k authority http2 { x with request, replay := none } := ⟨_, rfl⟩
  rw [← hu, ← hv]
  have hunsent := Task.unsent_of_nil hpc
  have hupc : u.pc = .serving x (.serving authority route http2 false) [] := by rw [hu]
  have husent : u.unsent = false := Task.unsent_of_nil hupc
  have hbody : u.body = t.body := hu ▸ rfl
  have hnone : v.body = none := hv ▸ rfl
  have hdraft : t.draft? = some x.id := by
    rw [Task.draft?_serving hpc]
    rfl
  have hdraft' : u.draft? = none := by
    rw [Task.draft?_serving hupc, husent]
    rfl
  have hdraft'' : v.draft? = some x.id := by
    rw [hv]
    rfl
  have hdrafts := total_set (f := Task.drafts id) hk u
  have hrecordings := total_set (f := Task.recordings id) hk u
  rw [Task.recordings_eq hbody (husent.trans hunsent.symm)] at hrecordings
  refine .quiet (keepsBodies_nothing id) ?_ ?_ ?_
  · show total _ (s.tasks.set k u ++ [v]) ≤ total _ s.tasks
    have hmoved : v.drafts id = t.drafts id := by rw [Task.drafts, Task.drafts, hdraft, hdraft'']
    have hzero : u.drafts id = 0 := by
      unfold Task.drafts
      rw [hdraft', if_neg (by simp)]
    rw [total_append, total_cons, total_nil]
    omega
  · show total _ (s.tasks.set k u ++ [v]) + total _ s.stores = total _ s.tasks + total _ s.stores
    rw [total_append, total_cons, total_nil, Task.recordings_of_none hnone]
    omega
  · rintro ⟨w, hw, hfails⟩
    rcases List.mem_append.mp hw with hw | hw
    · rcases List.mem_or_eq_of_mem_set hw with hw | rfl
      · exact .inl ⟨w, hw, hfails⟩
      · refine .inl ⟨t, List.mem_of_getElem? hk, ?_⟩
        unfold Task.fails at hfails ⊢
        rwa [← hbody]
    · rw [List.mem_singleton.mp hw, Task.fails_of_none hnone] at hfails
      cases hfails

/-- A later request in a tunnel begins an exchange. -/
theorem Engine.tells_innerNext {s : Engine} {id k : Nat} {request : Request} {t : Task}
    {x : Handling} {authority : Authority} {http2 : Bool} (hk : s.tasks[k]? = some t) :
    s.Tells id (.begin request x.destination x.clientProfileId none) { s.toParties with
      tasks := s.tasks.set k t ++ [t.inner k authority http2 { x with
        id := s.shared.nextId, started := s.clock, request, replay := none }] } := by
  obtain ⟨v, hv⟩ : ∃ v, v = t.inner k authority http2 { x with
    id := s.shared.nextId, started := s.clock, request, replay := none } := ⟨_, rfl⟩
  rw [← hv]
  have hnone : v.body = none := hv ▸ rfl
  have hdraft : v.draft? = some s.shared.nextId := by
    rw [hv]
    rfl
  have hself : s.tasks.set k t = s.tasks := by
    obtain ⟨hlt, rfl⟩ := List.getElem?_eq_some_iff.mp hk
    exact List.set_getElem_self hlt
  rw [hself]
  have hfails : s.Fails id { s.toParties with tasks := s.tasks ++ [v] } := by
    rintro ⟨w, hw, hfails⟩
    rcases List.mem_append.mp hw with hw | hw
    · exact .inl ⟨w, hw, hfails⟩
    · rw [List.mem_singleton.mp hw, Task.fails_of_none hnone] at hfails
      cases hfails
  have hrecordings : Parties.recordings { s.toParties with tasks := s.tasks ++ [v] } id =
      s.recordings id := by
    show total _ (s.tasks ++ [v]) + total _ s.stores = total _ s.tasks + total _ s.stores
    rw [total_append, total_cons, total_nil, Task.recordings_of_none hnone]
    omega
  have hdrafts : Parties.drafts { s.toParties with tasks := s.tasks ++ [v] } id =
      s.drafts id + v.drafts id := by
    show total _ (s.tasks ++ [v]) = total _ s.tasks + v.drafts id
    rw [total_append, total_cons, total_nil]
    omega
  by_cases hid : id = s.shared.nextId
  · refine .begins rfl hid ?_ hrecordings hfails
    rw [hdrafts, Task.drafts, hdraft, hid, if_pos rfl]
  · refine .quiet ?_ ?_ hrecordings hfails
    · intro change heq
      cases heq
    · rw [hdrafts, Task.drafts, hdraft, if_neg]
      · exact Nat.le_refl _
      · intro heq
        exact hid (Option.some.inj heq).symm

/-- **What an event makes of the recording of exchange `id`.** -/
theorem Engine.tells_of_move {crypto : Crypto} {s : Engine} (hr : s.Referenced)
    (htidy : ∀ t ∈ s.tasks, t.Tidy) {id : Nat} {e : Event} {sec : Section} {p : Parties}
    (h : s.move crypto e = some (sec, p)) (hends : s.bodyEnds id e = true) : s.Tells id sec p := by
  have hmoved := moved_of_move h
  have hnothing := keepsBodies_nothing id
  cases hmoved with
  | lifecycle hlife =>
      have houtlives := outlives_lifecycle hlife
      have hsec : ∀ change, sec = .update id change → change.ofBody = false := by
        intro change heq
        rcases houtlives.sec with rfl | ⟨settings, address, rfl⟩ | rfl | rfl <;> cases heq
      rcases houtlives.tasks with htasks | ⟨listening, -, -, htasks⟩
      · exact .aside hsec htasks houtlives.stores
      · -- a connection, whose task has nothing yet
        refine .quiet hsec ?_ ?_ ?_
        · rw [Parties.drafts, htasks, total_append]
          exact Nat.le_refl _
        · rw [Parties.recordings, htasks, houtlives.stores, total_append]
          rfl
        · rintro ⟨t, ht, hfails⟩
          rw [htasks] at ht
          rcases List.mem_append.mp ht with ht | ht
          · exact .inl ⟨t, ht, hfails⟩
          · cases List.mem_singleton.mp ht
            cases hfails
  | task =>
      obtain ⟨t, t', hk, hstep, hp⟩ := Engine.move_task h
      have ht := htidy t (List.mem_of_getElem? hk)
      rw [hp]
      exact tells_task hk rfl rfl ((Task.step_says hstep ht).1.accounts id)
  | body hk hbody hstep hsent =>
      exact tells_body hk (htidy _ (List.mem_of_getElem? hk)) hbody hstep hsent hends
  | innerFirst hk hpc => exact tells_innerFirst hk hpc
  | innerNext hk hpc => exact tells_innerNext hk
  | store hk hstep => exact tells_store hk hstep
  | dropExchange => exact .aside hnothing rfl rfl
  | exchange hx htodo =>
      refine .aside ?_ rfl rfl
      intro change heq
      obtain ⟨-, rfl⟩ := Errand.section_update heq
      obtain ⟨error, hsuffix⟩ := hr.finishing _ (List.mem_of_getElem? hx)
      exact ofBody_finish _ error _ (hsuffix.subset (htodo ▸ List.mem_cons_self))
  | resolve =>
      refine .aside ?_ rfl rfl
      intro change heq
      cases heq
  | receive hk ht hreceive =>
      obtain ⟨hdraft, hbody, hunsent⟩ := Task.receive_keeps hreceive
      refine tells_task ht rfl rfl (.quiet hnothing (Task.drafts_le (.inl hdraft) id)
        (Task.recordings_eq hbody hunsent id) ?_)
      unfold Task.fails
      rw [hbody]
      exact fun h => h
  | issuesToken =>
      refine .aside ?_ rfl rfl
      intro change heq
      cases heq
  | returnsToken =>
      refine .aside ?_ rfl rfl
      intro change heq
      cases heq
  | clear =>
      refine .aside ?_ rfl rfl
      intro change heq
      cases heq
  | _ => exact .aside hnothing rfl rfl

/-! ## Tasks stay tidy -/

theorem Task.Tidy.polls {t : Task} {party : BodyParty} {a : BodyAnswer} {move : BodyMove}
    (ht : t.Tidy) (hbody : t.body = some party) (hstep : party.step a = some move)
    (hsent : t.unsent = false) : Task.Tidy { t with body := move.party } := by
  obtain ⟨-, herrors⟩ := BodyParty.step_accounts hstep (ht.errors party hbody)
  refine ⟨fun _ => ?_, fun h => ?_, fun _ => ht.todo hsent, fun party' hparty' => ?_⟩
  · exact ht.body (by rw [hbody]; rfl)
  · cases hsent.symm.trans h
  · exact herrors party' hparty'

/-- A task without a body and without errands. -/
theorem Task.Tidy.of_none {t : Task} {x : Handling} {op : Op} (hbody : t.body = none)
    (hpc : t.pc = .serving x op []) : t.Tidy := by
  refine ⟨fun h => ?_, fun h => ?_, fun _ y op' todo hserving => ?_, fun party hparty => ?_⟩
  · rw [hbody] at h
    cases h
  · cases (Task.unsent_of_nil hpc).symm.trans h
  · cases hpc.symm.trans hserving
    exact fun errand h => absurd h List.not_mem_nil
  · cases hbody.symm.trans hparty

theorem Engine.tidy_of_move {crypto : Crypto} {s : Engine} (h : ∀ t ∈ s.tasks, t.Tidy) {e : Event}
    {sec : Section} {p : Parties} (hmove : s.move crypto e = some (sec, p)) :
    ∀ t ∈ p.tasks, t.Tidy := by
  intro t' ht'
  obtain ⟨i, hi⟩ := List.mem_iff_getElem?.mp ht'
  by_cases htask : ∃ k a, e = .task k a
  · obtain ⟨k, a, rfl⟩ := htask
    obtain ⟨t, u, hk, hstep, rfl⟩ := Engine.move_task hmove
    rcases SingleOwner.getElem?_set_cases hi with ⟨rfl, rfl⟩ | ⟨-, hi⟩
    · exact (Task.step_says hstep (h t (List.mem_of_getElem? hk))).2
    · exact h t' (List.mem_of_getElem? hi)
  · rcases (moved_of_move hmove).came hi with ⟨t, ht, hbecame⟩ | ⟨-, harrives⟩
    · have htidy := h t (List.mem_of_getElem? ht)
      cases hbecame with
      | stays => exact htidy
      | moves => exact absurd ⟨_, _, rfl⟩ htask
      | polls hbody hstep hsent => exact htidy.polls hbody hstep hsent
      | hands hpc =>
          refine .of_none ?_ rfl
          cases hbody : t.body with
          | none => rfl
          | some party =>
              rcases htidy.body (by rw [hbody]; rfl) with hgone | ⟨y, op, todo, hserving, hop⟩
              · cases hpc.symm.trans hgone
              · cases hpc.symm.trans hserving
                cases hop
      | receives hresolver hreceive =>
          unfold Task.receive at hreceive
          split at hreceive
          next hpc =>
            cases hreceive
            refine ⟨fun hsome => .inr ⟨_, _, _, rfl, rfl⟩, fun hunsent => ?_,
              fun _ y op todo h => ?_, htidy.errors⟩
            · cases (Task.unsent_of_nil rfl).symm.trans hunsent
            · cases h
              exact fun errand h => absurd h List.not_mem_nil
          next => cases hreceive
    · cases harrives with
      | connection =>
          refine ⟨fun h => ?_, fun h => ?_, fun _ x op todo h => ?_, fun party h => ?_⟩ <;> cases h
      | innerFirst => exact .of_none rfl rfl
      | innerNext => exact .of_none rfl rfl

/-! ## Who holds an exchange that is recorded -/

theorem Op.holdsExchange_of_whole {op : Op} (h : op.whole = true) : op.holdsExchange = true := by
  cases op <;> first | rfl | cases h

/-- Nothing is to be told of an exchange that nobody holds. -/
theorem Parties.untold {p : Parties} {id : Nat} (h : p.holds id = false) :
    p.drafts id = 0 ∧ p.recordings id = 0 ∧ ∀ t ∈ p.tasks, t.fails id = false := by
  have htask {t : Task} (ht : t ∈ p.tasks) : t.holds id = false := by
    by_contra hheld
    cases h.symm.trans (Parties.holds_iff.mpr (.inl ⟨t, ht, by simpa using hheld⟩))
  have hbody {t : Task} (ht : t ∈ p.tasks) {party : BodyParty} (hparty : t.body = some party) :
      party.exchange.id ≠ id := by
    intro hid
    cases (htask ht).symm.trans (Task.holds_iff.mpr (.inr ⟨party, hparty, hid⟩))
  refine ⟨total_eq_zero fun t ht => ?_, ?_, fun t ht => ?_⟩
  · unfold Task.drafts
    rw [if_neg]
    intro hdraft
    unfold Task.draft? at hdraft
    split at hdraft
    next x op todo hpc =>
      split at hdraft <;> cases hdraft
      next hwhole =>
        refine absurd (Task.holds_serving hpc ?_) (by rw [htask ht]; simp)
        rcases (Bool.or_eq_true ..).mp hwhole with hwhole | hunsent
        · exact .inl (Op.holdsExchange_of_whole hwhole)
        · obtain ⟨y, authority, errand, todo', hpc'⟩ := Task.unsent_iff.mp hunsent
          cases hpc.symm.trans hpc'
          exact .inl rfl
    next => cases hdraft
  · have htasks : total (Task.recordings id) p.tasks = 0 := by
      refine total_eq_zero fun t ht => ?_
      unfold Task.recordings
      split
      next party hparty => exact if_neg fun hid => hbody ht hparty hid.1
      next => rfl
    have hstores : total (StoreTask.recordings id) p.stores = 0 := by
      refine total_eq_zero fun store hstore => ?_
      have hstored (hpoint : store.point ≠ .ended) : store.exchange.id ≠ id := by
        intro hid
        cases h.symm.trans (Parties.holds_iff.mpr (.inr ⟨store, hstore, hid, hpoint⟩))
      unfold StoreTask.recordings
      split
      next hpoint => exact if_neg (hstored (by rw [hpoint]; exact StorePoint.noConfusion))
      next hpoint => exact if_neg (hstored (by rw [hpoint]; exact StorePoint.noConfusion))
      next => rfl
    rw [Parties.recordings, htasks, hstores]
  · unfold Task.fails
    cases hparty : t.body with
    | none => rfl
    | some party =>
        show (decide (party.exchange.id = id) && _) = false
        rw [decide_eq_false (hbody ht hparty), Bool.false_and]

theorem Engine.unheld_of_fresh {s : Engine} (hc : s.Consistent) (hr : s.Referenced) {id : Nat}
    (h : s.shared.nextId ≤ id) : s.holds id = false := by
  by_contra hheld
  obtain ⟨x, hx, rfl, -⟩ := hr.held id (by simpa using hheld)
  have hlt := hc.fresh (x.id, x.destination) (List.mem_map_of_mem hx)
  exact Nat.not_le_of_lt hlt h

/-! ## The recording of one exchange -/

/-- What a capture shows of a recording, given who is to write it. -/
structure Capture.Told (c : Capture) (drafts recordings : Nat) : Prop where
  draft : 0 < drafts → c.requestBodyState = .disabled ∧ c.requestBodyError = none
  recording : c.requestBodyState = .recording ↔ 0 < recordings
  error : c.requestBodyState = .unavailable ↔ c.requestBodyError.isSome = true

/-- One party at most is to write the state of the body of exchange `id`, and the capture shows
whether there is one. -/
structure Engine.Records (id : Nat) (s : Engine) : Prop where
  tidy : ∀ t ∈ s.tasks, t.Tidy
  once : s.drafts id + s.recordings id ≤ 1
  fails : (∃ t ∈ s.tasks, t.fails id = true) →
    ∀ c ∈ s.shared.traffic, c.id = id → c.requestBodyState = .unavailable
  told : ∀ c ∈ s.shared.traffic, c.id = id → c.Told (s.drafts id) (s.recordings id)

theorem Capture.Told.mono {c : Capture} {drafts drafts' recordings : Nat}
    (h : c.Told drafts recordings) (hle : drafts' ≤ drafts) : c.Told drafts' recordings :=
  ⟨fun hdrafts => h.draft (Nat.lt_of_lt_of_le hdrafts hle), h.recording, h.error⟩

/-- Captures that show the same of the recording. -/
structure Capture.SameBody (c c' : Capture) : Prop where
  state : c'.requestBodyState = c.requestBodyState
  error : c'.requestBodyError = c.requestBodyError

theorem Capture.Told.congr {c c' : Capture} {drafts recordings : Nat} (h : c.Told drafts recordings)
    (hsame : c.SameBody c') : c'.Told drafts recordings := by
  refine ⟨?_, ?_, ?_⟩
  · rw [hsame.state, hsame.error]
    exact h.draft
  · rw [hsame.state]
    exact h.recording
  · rw [hsame.state, hsame.error]
    exact h.error

theorem Capture.sameBody_apply {change : Change} (h : change.ofBody = false) (now : Nat)
    (c : Capture) : c.SameBody (c.apply now change) := by
  cases change with
  | finish started error =>
      show c.SameBody (if c.phase ≠ .pending then c else _)
      split <;> exact ⟨rfl, rfl⟩
  | requestBody => cases h
  | requestUnavailable => cases h
  | requestBodyError => cases h
  | _ => exact ⟨rfl, rfl⟩

/-- A capture after a section: it was there and shows the same, it was written, or it is new. -/
theorem State.Ordered.body_apply {s : State} (h : s.Ordered) {now : Nat} {sec : Section}
    {c' : Capture} (hc : c' ∈ (s.apply now sec).traffic) :
    (∃ c ∈ s.traffic, c.id = c'.id ∧ c.SameBody c' ∧
        ∀ change, sec = .update c'.id change → change.ofBody = false) ∨
      (∃ c ∈ s.traffic, c.id = c'.id ∧ ∃ change, sec = .update c'.id change ∧
        change.ofBody = true ∧ c' = c.apply now change) ∨
      (sec.begins.isSome = true ∧ c'.id = s.nextId ∧ c'.requestBodyState = .disabled ∧
        c'.requestBodyError = none) := by
  rcases h.mem_apply hc with ⟨hmem, hupdate, -⟩ | ⟨c, hmem, change, rfl, rfl⟩ |
    ⟨c, hmem, task, status, rfl, rfl⟩ | ⟨request, destination, clientProfileId, replayOf, rfl, rfl⟩
  · refine .inl ⟨c', hmem, rfl, ⟨rfl, rfl⟩, fun change heq => ?_⟩
    exact absurd heq (hupdate change)
  · cases hbody : change.ofBody with
    | false =>
        refine .inl ⟨c, hmem, by simp, Capture.sameBody_apply hbody now c, fun change' heq => ?_⟩
        exact (Section.update.inj heq).2 ▸ hbody
    | true => exact .inr (.inl ⟨c, hmem, by simp, change, by simp, hbody, rfl⟩)
  · refine .inl ⟨c, hmem, rfl, ⟨rfl, rfl⟩, fun change heq => ?_⟩
    cases heq
  · exact .inr (.inr ⟨rfl, rfl, rfl, rfl⟩)

theorem Announces.ofBody {change : Change} {capture : Option (List UInt8)}
    (h : Announces change capture) : change.ofBody = true := by
  cases h <;> rfl

/-- What the first word on a body makes of a capture of which nothing has been said. -/
theorem Announces.told {change : Change} {capture : Option (List UInt8)}
    (h : Announces change capture) {c : Capture} (herror : c.requestBodyError = none) (now : Nat) :
    (c.apply now change).Told 0 capture.toList.length := by
  cases h with
  | recording =>
      refine ⟨fun h => absurd h (Nat.lt_irrefl 0), ⟨fun _ => Nat.one_pos, fun _ => rfl⟩, ?_⟩
      show RequestBodyState.recording = .unavailable ↔ c.requestBodyError.isSome = true
      rw [herror]
      decide
  | unavailable message =>
      refine ⟨fun h => absurd h (Nat.lt_irrefl 0), ⟨fun h => ?_, fun h => ?_⟩,
        ⟨fun _ => rfl, fun _ => rfl⟩⟩
      · cases h
      · exact absurd h (Nat.lt_irrefl 0)
  | empty =>
      refine ⟨fun h => absurd h (Nat.lt_irrefl 0), ⟨fun h => ?_, fun h => ?_⟩, ?_⟩
      · cases h
      · exact absurd h (Nat.lt_irrefl 0)
      · show RequestBodyState.empty = .unavailable ↔ c.requestBodyError.isSome = true
        rw [herror]
        decide

section Step

variable {id : Nat} {s : Engine} {sec : Section} {p : Parties}

theorem Engine.Tells.fails_or_gone (h : s.Tells id sec p) :
    s.Fails id p ∨ ¬ s.shared.Retained id ∧ sec.begins = none := by
  cases h with
  | gone hretained hbegins => exact .inr ⟨hretained, hbegins⟩
  | _ => exact .inl (by assumption)

/-- A body that was given up stays so while an error of it waits to be reported. -/
theorem Engine.Records.given_up (h : s.Records id) (hc : s.Consistent) (htells : s.Tells id sec p)
    (hne : id ≠ s.shared.nextId)
    (hgiven : ∀ c ∈ s.shared.traffic, c.id = id → c.requestBodyState = .unavailable) {c' : Capture}
    (hc' : c' ∈ (s.shared.apply s.clock sec).traffic) (hid : c'.id = id) :
    c'.requestBodyState = .unavailable := by
  rcases hc.ordered.body_apply hc' with ⟨c, hmem, hcid, hsame, -⟩ |
    ⟨c, hmem, hcid, change, hsec, hbody, rfl⟩ | ⟨-, hnew, -⟩
  · exact hsame.state.trans (hgiven c hmem (hcid.trans hid))
  · have hcid := hcid.trans hid
    have hunavailable := hgiven c hmem hcid
    cases htells with
    | quiet hquiet => cases hbody.symm.trans (hquiet change (hid ▸ hsec))
    | gone hretained => exact absurd ⟨c, hmem, hcid⟩ hretained
    | begins hbegins => cases hsec ▸ hbegins
    | announces hannounces hd hr =>
        have hdraft := ((h.told c hmem hcid).draft (by omega)).1
        cases hdraft.symm.trans hunavailable
    | fails hany hd hr =>
        cases hsec
        exact hunavailable
    | reports hchange hd hr =>
        have hrecording := (h.told c hmem hcid).recording.mpr (by omega)
        cases hrecording.symm.trans hunavailable
  · exact absurd (hid.symm.trans hnew) hne

/-- What the capture shows after an event. -/
theorem Engine.Records.told_apply (h : s.Records id) (hc : s.Consistent) (htells : s.Tells id sec p)
    (hfresh : id = s.shared.nextId → s.drafts id = 0 ∧ s.recordings id = 0) {c' : Capture}
    (hc' : c' ∈ (s.shared.apply s.clock sec).traffic) (hid : c'.id = id) :
    c'.Told (p.drafts id) (p.recordings id) := by
  have honce := h.once
  rcases hc.ordered.body_apply hc' with ⟨c, hmem, hcid, hsame, hkept⟩ |
    ⟨c, hmem, hcid, change, hsec, hbody, rfl⟩ | ⟨hbegins, hnew, hstate, herror⟩
  -- the capture shows the same
  · have hcid := hcid.trans hid
    have htold := h.told c hmem hcid
    rw [hid] at hkept
    cases htells with
    | quiet hquiet hd hr =>
        rw [hr]
        exact (htold.mono hd).congr hsame
    | gone hretained => exact absurd ⟨c, hmem, hcid⟩ hretained
    | begins hbegins hnew =>
        have := hc.ordered.below c hmem
        omega
    | announces hannounces => cases hannounces.ofBody.symm.trans (hkept _ rfl)
    | fails => cases hkept _ rfl
    | reports hchange =>
        rcases hchange with rfl | ⟨message, rfl⟩ <;> cases hkept _ rfl
  -- it was written
  · have hcid' := hcid.trans hid
    have htold := h.told c hmem hcid'
    rw [hid] at hsec
    cases htells with
    | quiet hquiet => cases hbody.symm.trans (hquiet change hsec)
    | gone hretained => exact absurd ⟨c, hmem, hcid'⟩ hretained
    | begins hbegins => cases hsec ▸ hbegins
    | announces hannounces hd hr =>
        cases hsec
        obtain ⟨-, herror⟩ := htold.draft (by omega)
        rw [show p.drafts id = 0 by omega, hr, show s.recordings id = 0 by omega, Nat.zero_add]
        exact hannounces.told herror s.clock
    | fails hany hd hr =>
        cases hsec
        have hunavailable := h.fails hany c hmem hcid'
        rw [hd, hr]
        refine ⟨fun hdrafts => ?_, ?_, ⟨fun _ => rfl, fun _ => hunavailable⟩⟩
        · cases (htold.draft hdrafts).1.symm.trans hunavailable
        · exact htold.recording
    | reports hchange hd hr =>
        have hrecording := htold.recording.mpr (by omega)
        rw [hd, show s.drafts id = 0 by omega, show p.recordings id = 0 by omega]
        have herror : ¬ c.requestBodyError.isSome = true := by
          rw [← htold.error, hrecording]
          exact RequestBodyState.noConfusion
        cases hsec
        rcases hchange with rfl | ⟨message, rfl⟩
        · refine ⟨fun h => absurd h (Nat.lt_irrefl 0), ⟨fun h => ?_, fun h => ?_⟩,
            ⟨fun h => ?_, fun h => absurd h herror⟩⟩
          · cases h
          · exact absurd h (Nat.lt_irrefl 0)
          · cases h
        · refine ⟨fun h => absurd h (Nat.lt_irrefl 0), ⟨fun h => ?_, fun h => ?_⟩,
            ⟨fun _ => rfl, fun _ => rfl⟩⟩
          · cases h
          · exact absurd h (Nat.lt_irrefl 0)
  -- it is new, and nobody has anything to say of it yet
  · obtain ⟨hdrafts, hrecordings⟩ := hfresh (hid.symm.trans hnew)
    have hzero : p.recordings id = 0 := by
      cases htells <;> omega
    rw [hzero]
    refine ⟨fun _ => ⟨hstate, herror⟩, ⟨fun h => ?_, fun h => ?_⟩, ⟨fun h => ?_, fun h => ?_⟩⟩
    · cases hstate.symm.trans h
    · exact absurd h (Nat.lt_irrefl 0)
    · cases hstate.symm.trans h
    · rw [herror] at h
      cases h

end Step

/-- **Every event keeps account of who writes the state of a request body**, if the steps of the
body leave somebody to. -/
theorem Engine.Records.step {crypto : Crypto} {id : Nat} {s s' : Engine} {e : Event}
    (hreach : (engine crypto).Reachable s) (h : s.Records id) (hends : s.bodyEnds id e = true)
    (hstep : s.step crypto e = some s') : s'.Records id := by
  have hc := Engine.consistent hreach
  have hr := Engine.referenced hreach
  obtain ⟨⟨sec, p⟩, hmove, rfl⟩ := Option.map_eq_some_iff.mp hstep
  have htells := tells_of_move hr h.tidy hmove hends
  have hfresh (hid : id = s.shared.nextId) : s.drafts id = 0 ∧ s.recordings id = 0 ∧
      ∀ t ∈ s.tasks, t.fails id = false :=
    Parties.untold (unheld_of_fresh hc hr (Nat.le_of_eq hid.symm))
  have hnew {c : Capture} (hmem : c ∈ s.shared.traffic) (hid : c.id = id) :
      id ≠ s.shared.nextId := by
    have := hc.ordered.below c hmem
    omega
  have htasks : (p.log s.shared sec).tasks = p.tasks := Parties.log_tasks ..
  have hdrafts : (p.log s.shared sec).drafts id = p.drafts id := by
    rw [Parties.drafts, htasks, Parties.drafts]
  have hrecordings : (p.log s.shared sec).recordings id = p.recordings id := by
    rw [Parties.recordings, htasks, Parties.log_stores, Parties.recordings]
  -- who has an error to report had it before, or the body had been given up
  have hgiven (hfails : s.Fails id p) (hany : ∃ t ∈ p.tasks, t.fails id = true) :
      id ≠ s.shared.nextId ∧
        ∀ c ∈ s.shared.traffic, c.id = id → c.requestBodyState = .unavailable := by
    rcases hfails hany with ⟨t, ht, hfail⟩ | ⟨⟨c, hmem, hid⟩, hgiven⟩
    · refine ⟨fun hid => ?_, h.fails ⟨t, ht, hfail⟩⟩
      cases ((hfresh hid).2.2 t ht).symm.trans hfail
    · exact ⟨hnew hmem hid, hgiven⟩
  refine ⟨?_, ?_, ?_, ?_⟩
  · show ∀ t ∈ (p.log s.shared sec).tasks, t.Tidy
    rw [htasks]
    exact tidy_of_move h.tidy hmove
  · show (p.log s.shared sec).drafts id + (p.log s.shared sec).recordings id ≤ 1
    rw [hdrafts, hrecordings]
    have honce := h.once
    cases htells with
    | quiet hsec hd hr => omega
    | gone hretained hsec hd hr => omega
    | begins hbegins hid hd hr =>
        obtain ⟨hzero, hzero', -⟩ := hfresh hid
        omega
    | @announces _ capture _ hannounces hd hr =>
        have hle := Option.length_toList_le (o := capture)
        omega
    | fails hany hd hr => omega
    | reports hchange hd hr => omega
  · intro hany c' hc' hid
    rw [show ({ p.log s.shared sec with shared := s.shared.apply s.clock sec } : Engine).tasks =
      p.tasks from htasks] at hany
    rcases htells.fails_or_gone with hfails | ⟨hretained, hbegins⟩
    · obtain ⟨hne, hgiven⟩ := hgiven hfails hany
      exact h.given_up hc htells hne hgiven hc' hid
    · rcases hc.ordered.body_apply hc' with ⟨c, hmem, hcid, -⟩ | ⟨c, hmem, hcid, -⟩ | ⟨hnew, -⟩
      · exact absurd ⟨c, hmem, hcid.trans hid⟩ hretained
      · exact absurd ⟨c, hmem, hcid.trans hid⟩ hretained
      · rw [hbegins] at hnew
        cases hnew
  · intro c' hc' hid
    show c'.Told ((p.log s.shared sec).drafts id) ((p.log s.shared sec).recordings id)
    rw [hdrafts, hrecordings]
    refine h.told_apply hc htells (fun heq => ?_) hc' hid
    obtain ⟨hzero, hzero', -⟩ := hfresh heq
    exact ⟨hzero, hzero'⟩

theorem Engine.records {crypto : Crypto} {id : Nat} {s : Engine}
    (h : (engine crypto).Reach (fun s e => s.bodyEnds id e = true) s) : s.Records id := by
  refine h.invariant_along ⟨?_, ?_, ?_, ?_⟩ fun hreach hs hends hstep =>
    hs.step hreach.reachable hends hstep
  · exact fun t ht => absurd ht List.not_mem_nil
  · exact Nat.zero_le _
  · rintro ⟨t, ht, -⟩
    exact absurd ht List.not_mem_nil
  · exact fun c hc => absurd hc List.not_mem_nil

/-- Is the request body of exchange `id` gone, and every store task of it done? -/
def Parties.Handed (p : Parties) (id : Nat) : Prop :=
  (∀ t ∈ p.tasks, (t.body.all fun party => party.exchange.id ≠ id) = true) ∧
    ∀ store ∈ p.stores, store.exchange.id = id → store.point = .ended

instance (p : Parties) (id : Nat) : Decidable (p.Handed id) :=
  inferInstanceAs (Decidable (_ ∧ _))

theorem Parties.Handed.recordings {p : Parties} {id : Nat} (h : p.Handed id) :
    p.recordings id = 0 := by
  obtain ⟨hbodies, hends⟩ := h
  have htasks : total (Task.recordings id) p.tasks = 0 := by
    refine total_eq_zero fun t ht => ?_
    unfold Task.recordings
    split
    next party hparty =>
      refine if_neg fun hid => ?_
      have hother := hbodies t ht
      rw [hparty] at hother
      exact of_decide_eq_true hother hid.1
    next => rfl
  have hstores : total (StoreTask.recordings id) p.stores = 0 := by
    refine total_eq_zero fun store hstore => ?_
    unfold StoreTask.recordings
    split
    next hpoint =>
      refine if_neg fun hid => ?_
      cases hpoint.symm.trans (hends store hstore hid)
    next hpoint =>
      refine if_neg fun hid => ?_
      cases hpoint.symm.trans (hends store hstore hid)
    next => rfl
  rw [Parties.recordings, htasks, hstores]

/-- **A recording that is over shows how it ended**: where every step of the request body leaves
somebody to say so, the capture does not stay "recording", and it is "unavailable" exactly when it
has an error. -/
theorem request_recording_ends {crypto : Crypto} {id : Nat} {s : Engine}
    (h : (engine crypto).Reach (fun s e => s.bodyEnds id e = true) s) (hover : s.Handed id)
    {c : Capture} (hc : c ∈ s.shared.traffic) (hid : c.id = id) :
    c.requestBodyState ≠ .recording ∧
      (c.requestBodyState = .unavailable ↔ c.requestBodyError.isSome = true) := by
  have htold := (Engine.records h).told c hc hid
  refine ⟨fun hrecording => ?_, htold.error⟩
  have hpos := htold.recording.mp hrecording
  rw [hover.recordings] at hpos
  exact Nat.lt_irrefl 0 hpos

/-! ## Runs -/

/-- An upload of JSON. -/
def jsonUpload : Request :=
  { upload with headers := [("content-type".toList, "application/json".toList)] }

/-- It is recorded, and sent up to its body. -/
def uploading : List Event :=
  starting { ProxyConfig.default with captureBodies := true } ++ [.accept] ++
    answers 0 (untilSent jsonUpload ++ [.go])

/-- The upstream answers, the response is recorded, and the exchange finishes. -/
def uploadAnswered : List Event :=
  answers 0 ([.upstream (some ⟨413, [], true, []⟩), .go, .go, .go, .go, .recorded none, .go, .go,
    .emptied, .go, .go])

/-- The body is sent to its end, and stored. -/
def uploadStored : List Event :=
  uploading ++ [.body 0 (.poll (.frame (.data [123, 125]) true)), .body 0 .go, .body 0 .go,
    .store 0 none, .store 0 none, .store 0 none, .store 0 none, .body 0 .drop] ++ uploadAnswered

/-- The upstream answers before it has the whole body, which is dropped. -/
def uploadDropped : List Event :=
  uploading ++ [.body 0 (.poll (.frame (.data [123]) false)), .body 0 .go, .body 0 .drop] ++
    uploadAnswered

theorem stored_upload_ends :
    ∃ s c, (engine .unused).run uploadStored = some s ∧ c ∈ s.shared.traffic ∧
      c.requestBodyState = .complete ∧ c.requestBodyState ≠ .recording ∧
      (c.requestBodyState = .unavailable ↔ c.requestBodyError.isSome = true) := by
  have hrun : ((engine .unused).run uploadStored).map (fun s =>
      (s.shared.traffic.map fun c => (c.id, c.requestBodyState), decide (s.Handed 1))) =
        some ([(1, .complete)], true) := by
    decide +kernel
  have hends : (engine .unused).Meets (fun s e => s.bodyEnds 1 e = true) (engine .unused).start
      uploadStored := by
    decide +kernel
  obtain ⟨s, hs, heq⟩ := Option.map_eq_some_iff.mp hrun
  obtain ⟨htraffic, hover⟩ := Prod.mk.inj heq
  have hmem : (1, RequestBodyState.complete) ∈
      s.shared.traffic.map fun c => (c.id, c.requestBodyState) := by
    rw [htraffic]
    exact List.mem_cons_self
  obtain ⟨c, hc, heq⟩ := List.mem_map.mp hmem
  obtain ⟨hid, hstate⟩ := Prod.mk.inj heq
  refine ⟨s, c, hs, hc, hstate, ?_⟩
  exact request_recording_ends (Machine.reach_of_run uploadStored hends hs)
    (of_decide_eq_true hover) hc hid

/-- The capture of the upload that was dropped stays "recording". -/
theorem dropped_upload_stays_recording :
    (∃ s c, (engine .unused).run uploadDropped = some s ∧ s.shared.captureBodies = true ∧
      c ∈ s.shared.traffic ∧ c.phase = .complete ∧ s.Handed c.id ∧
      c.requestBodyState = .recording) ∧
    ¬ ∀ s, (engine .unused).Reachable s → ∀ c ∈ s.shared.traffic, c.phase ≠ .pending →
      s.Handed c.id → c.requestBodyState ≠ .recording ∧
        (c.requestBodyState = .unavailable ↔ c.requestBodyError.isSome = true) := by
  have hdropped : ∃ s c, (engine .unused).run uploadDropped = some s ∧
      s.shared.captureBodies = true ∧ c ∈ s.shared.traffic ∧ c.phase = .complete ∧
      s.Handed c.id ∧ c.requestBodyState = .recording := by
    have hrun : ((engine .unused).run uploadDropped).map (fun s =>
        (s.shared.traffic.map fun c => (c.id, c.phase, c.requestBodyState),
          s.shared.captureBodies, decide (s.Handed 1))) =
          some ([(1, .complete, .recording)], true, true) := by
      decide +kernel
    obtain ⟨s, hs, heq⟩ := Option.map_eq_some_iff.mp hrun
    simp only [Prod.mk.injEq] at heq
    obtain ⟨htraffic, hrecords, hover⟩ := heq
    have hmem : (1, Phase.complete, RequestBodyState.recording) ∈
        s.shared.traffic.map fun c => (c.id, c.phase, c.requestBodyState) := by
      rw [htraffic]
      exact List.mem_cons_self
    obtain ⟨c, hc, heq⟩ := List.mem_map.mp hmem
    simp only [Prod.mk.injEq] at heq
    obtain ⟨hid, hphase, hstate⟩ := heq
    exact ⟨s, c, hs, hrecords, hc, hphase, hid ▸ of_decide_eq_true hover, hstate⟩
  refine ⟨hdropped, fun hall => ?_⟩
  obtain ⟨s, c, hs, -, hc, hphase, hover, hstate⟩ := hdropped
  refine (hall s (Machine.reachable_of_run uploadDropped hs) c hc ?_ hover).1 hstate
  rw [hphase]
  exact Phase.noConfusion

end SippinSoda
