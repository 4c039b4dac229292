import SippinSoda.Engine.Pauses
import SippinSoda.Engine.RuleLookup

/-!
# The clocks on one exchange

`handle` and the service of a tunnel run the whole operation under `timeout`, and the pause of
a breakpoint is a `timeout` within it; a tunnel is under a `timeout` of its own, its lifetime, and
takes its requests with it. Here an exchange that is paused is followed to its end with nobody
deciding: the code between awaits takes no time, and an await what its course says.

* **Course** — what the rest of the exchange meets, and when it is cut off;
* **Clocked.step** — one step of the task under its limit;
* **Ends** — how it ends, point by point, from the last await back to the pause;
* **pause_ends_with_response** — exactly when the pause ends with the response.
-/

namespace SippinSoda

/-! ## A task and its clock -/

/-- The length of a pause. -/
def pauseLength : Nat := seconds 15

/-- What the task of a paused exchange meets when nobody decides. -/
structure Course where
  /-- The shared state, when the task takes a step from that point. -/
  shared : Pc → State
  /-- How long after the breakpoint opened Clear or an eviction takes its sender, if one does. -/
  senderLost : Option Nat
  /-- How long the body store takes for the response, and the error it ends with. -/
  storing : Nat
  storeError : Option String
  /-- How long `finish_empty` takes. -/
  emptying : Nat
  /-- When the lifetime of the tunnel is over, by the clock of the deadline. -/
  lifetime : Nat

/-- How long the pause lasts without a decision. -/
def Course.pause (course : Course) : Nat :=
  match course.senderLost with
  | none => pauseLength
  | some time => min time pauseLength

/-- How long the await at a point takes. -/
def Course.takes (course : Course) : Op → Nat
  | .paused _ _ _ => course.pause
  | .storing _ | .recording _ _ => course.storing
  | .emptying _ => course.emptying
  | _ => 0

/-- What it ends with. -/
def Course.answer (course : Course) : Op → Answer
  | .paused _ _ _ => .wake
  | .storing _ => .stored course.storeError
  | .recording _ _ => .recorded course.storeError
  | .emptying _ => .emptied
  | _ => .go

/-- When an operation is cut off, and whether it is dropped then or answered. -/
structure Limit where
  time : Nat
  drops : Bool

/-- The limit of an operation: its deadline, or the end of its tunnel if that is before. The
connection of a tunnel is polled before the clock is looked at, and answers a deadline that comes
at the end of its lifetime. -/
def Course.limit (course : Course) (deadline : Nat) : Origin → Limit
  | .client => ⟨deadline, false⟩
  | .tunnel _ _ =>
      if course.lifetime < deadline then ⟨course.lifetime, true⟩ else ⟨deadline, false⟩

def Limit.answer (limit : Limit) : Answer := if limit.drops then .drop else .deadline

/-- Where it leaves the task: gone, or with a 504. -/
def Limit.pc (limit : Limit) (x : Handling) (origin : Origin) : Pc :=
  if limit.drops then .gone
  else .serving x (.refused (localResponse origin.timeout.1 origin.timeout.2)) []

/-- A task, the time, and what it has done. -/
structure Clocked where
  now : Nat
  task : Task
  sections : List Section

/-- When the next step is taken, and with which answer. `timeout` polls the operation before it
looks at the clock, so an await that is over at the limit has not missed it. -/
def Clocked.next (course : Course) (limit : Limit) (c : Clocked) : Nat × Answer :=
  match c.task.pc with
  | .serving _ op [] =>
      if op.awaits then
        if c.now + course.takes op ≤ limit.time then (c.now + course.takes op, course.answer op)
        else (limit.time, limit.answer)
      else (c.now, .go)
  | _ => (c.now, .go)

def Clocked.step (crypto : Crypto) (k : Nat) (course : Course) (limit : Limit) (c : Clocked) :
    Option Clocked :=
  let (now, answer) := c.next course limit
  (c.task.step crypto (course.shared c.task.pc) now k answer).map fun (sec, task) =>
    { now, task, sections := c.sections ++ [sec] }

/-- So many steps, or as many as there are. -/
def Clocked.run (crypto : Crypto) (k : Nat) (course : Course) (limit : Limit) :
    Nat → Clocked → Clocked
  | 0, c => c
  | n + 1, c =>
      match c.step crypto k course limit with
      | some c => c.run crypto k course limit n
      | none => c

section

variable {crypto : Crypto} {k : Nat} {course : Course} {limit : Limit}

theorem Clocked.step_errand {c : Clocked} {x : Handling} {op : Op} {errand : Errand}
    {todo : List Errand} (hpc : c.task.pc = .serving x op (errand :: todo)) :
    c.step crypto k course limit = some {
      now := c.now
      task := { c.task with pc := .serving x op todo }
      sections := c.sections ++ [errand.section x.id] } := by
  unfold step next Task.step
  simp only [hpc]
  rfl

theorem Task.step_op {t : Task} {s : State} {now : Nat} {a : Answer} {x : Handling} {op : Op}
    {m : Move} (hpc : t.pc = .serving x op []) (hdrop : a ≠ .drop) (hdeadline : a ≠ .deadline)
    (hm : op.step t.listening.address t.listening.tlsInterception t.origin.http2 s x t.seen a =
      some m) : t.step crypto s now k a = some (m.act.section k x.id, t.after x m) := by
  unfold Task.step
  simp only [hpc]
  rw [if_neg hdrop, if_neg hdeadline, hm]
  rfl

theorem Clocked.step_code {c : Clocked} {x : Handling} {op : Op} {m : Move}
    (hpc : c.task.pc = .serving x op []) (hop : op.awaits = false)
    (hm : op.step c.task.listening.address c.task.listening.tlsInterception c.task.origin.http2
      (course.shared c.task.pc) x c.task.seen .go = some m) :
    c.step crypto k course limit = some {
      now := c.now, task := c.task.after x m
      sections := c.sections ++ [m.act.section k x.id] } := by
  have hnext : c.next course limit = (c.now, .go) := by
    unfold next
    simp only [hpc]
    rw [if_neg (by rw [hop]; exact Bool.false_ne_true)]
  unfold step
  rw [hnext]
  dsimp only
  rw [Task.step_op hpc (by decide) (by decide) hm]
  rfl

theorem Clocked.step_await {c : Clocked} {x : Handling} {op : Op} {m : Move}
    (hpc : c.task.pc = .serving x op []) (hop : op.awaits = true)
    (hready : c.now + course.takes op ≤ limit.time) (hdrop : course.answer op ≠ .drop)
    (hdeadline : course.answer op ≠ .deadline)
    (hm : op.step c.task.listening.address c.task.listening.tlsInterception c.task.origin.http2
      (course.shared c.task.pc) x c.task.seen (course.answer op) = some m) :
    c.step crypto k course limit = some {
      now := c.now + course.takes op, task := c.task.after x m
      sections := c.sections ++ [m.act.section k x.id] } := by
  have hnext : c.next course limit = (c.now + course.takes op, course.answer op) := by
    unfold next
    simp only [hpc]
    rw [if_pos hop, if_pos hready]
  unfold step
  rw [hnext]
  dsimp only
  rw [Task.step_op hpc hdrop hdeadline hm]
  rfl

theorem Op.suspended_of_awaits {op : Op} (h : op.awaits = true) : op.suspended = true := by
  cases op <;> first | rfl | cases h

/-- A task that has come to its limit. -/
def Task.lapse (t : Task) (limit : Limit) (x : Handling) : Task :=
  if limit.drops then { t with pc := .gone } else t.after x (x.refuse t.seen t.origin.timeout)

theorem Task.step_lapse {t : Task} {s : State} {now : Nat} {x : Handling} {op : Op}
    (hpc : t.pc = .serving x op []) (hop : op.awaits = true) :
    t.step crypto s now k limit.answer = some (.nothing, t.lapse limit x) := by
  unfold Task.step Task.lapse Limit.answer
  simp only [hpc]
  cases limit.drops with
  | true =>
      show (if op.suspended = true then _ else _) = _
      rw [if_pos (Op.suspended_of_awaits hop)]
      rfl
  | false =>
      show (if op.awaits = true then _ else _) = _
      rw [if_pos hop]
      rfl

theorem Clocked.step_late {c : Clocked} {x : Handling} {op : Op}
    (hpc : c.task.pc = .serving x op []) (hop : op.awaits = true)
    (hlate : ¬ c.now + course.takes op ≤ limit.time) :
    c.step crypto k course limit = some {
      now := limit.time, task := c.task.lapse limit x
      sections := c.sections ++ [.nothing] } := by
  have hnext : c.next course limit = (limit.time, limit.answer) := by
    unfold next
    simp only [hpc]
    rw [if_pos hop, if_neg hlate]
  unfold step
  rw [hnext]
  dsimp only
  rw [Task.step_lapse hpc hop]
  rfl

/-! ## How it ends -/

/-- The exchange ends with the response, if that is ready by the limit, else as this says. -/
def Clocked.Ends (crypto : Crypto) (k : Nat) (course : Course) (limit : Limit) (c : Clocked)
    (x : Handling) (response : Response) (ready : Nat) : Prop :=
  ∃ n d, c.run crypto k course limit n = d ∧ (∀ sec ∈ c.sections, sec ∈ d.sections) ∧
    if ready ≤ limit.time then d.task.pc = .serving x (.returned response) []
    else d.task.pc = limit.pc x c.task.origin

namespace Clocked

variable {c : Clocked} {x : Handling} {response : Response} {ready : Nat}

theorem run_of_step {c' : Clocked} (hstep : c.step crypto k course limit = some c') (n : Nat) :
    c.run crypto k course limit (n + 1) = c'.run crypto k course limit n := by
  show (match c.step crypto k course limit with
    | some c => c.run crypto k course limit n
    | none => c) = _
  rw [hstep]

theorem Ends.of_step {now : Nat} {task : Task} {sec : Section}
    (hstep : c.step crypto k course limit = some ⟨now, task, c.sections ++ [sec]⟩)
    (horigin : task.origin = c.task.origin)
    (h : Ends crypto k course limit ⟨now, task, c.sections ++ [sec]⟩ x response ready) :
    c.Ends crypto k course limit x response ready := by
  obtain ⟨n, d, hrun, hsections, hend⟩ := h
  refine ⟨n + 1, d, ?_, fun sec hsec => hsections sec (List.mem_append_left _ hsec), ?_⟩
  · rw [run_of_step hstep]
    exact hrun
  · rw [← horigin]
    exact hend

/-- The errands that are left take no time. -/
theorem Ends.of_errands {op : Op} {todo : List Errand} :
    ∀ {c : Clocked}, c.task.pc = .serving x op todo →
      (∀ d : Clocked, d.task.pc = .serving x op [] → d.now = c.now → d.task.origin = c.task.origin →
        d.task.listening = c.task.listening → d.task.seen = c.task.seen →
        d.Ends crypto k course limit x response ready) →
      c.Ends crypto k course limit x response ready := by
  induction todo with
  | nil =>
      intro c hpc h
      exact h c hpc rfl rfl rfl rfl
  | cons errand todo ih =>
      intro c hpc h
      exact .of_step (step_errand hpc) rfl (ih rfl h)

/-- A response that is returned by the limit. -/
theorem ends_returned {todo : List Errand} (hpc : c.task.pc = .serving x (.returned response) todo)
    (hready : ready ≤ limit.time) : c.Ends crypto k course limit x response ready := by
  refine .of_errands hpc fun d hpc' _ _ _ _ => ⟨0, d, rfl, fun sec hsec => hsec, ?_⟩
  rw [if_pos hready]
  exact hpc'

/-- An await that is not over at the limit. -/
theorem ends_late {op : Op} (hpc : c.task.pc = .serving x op []) (hop : op.awaits = true)
    (hlate : ¬ c.now + course.takes op ≤ limit.time) (hready : c.now + course.takes op ≤ ready) :
    c.Ends crypto k course limit x response ready := by
  have hnot : ¬ ready ≤ limit.time := by omega
  refine .of_step (step_late hpc hop hlate) ?_ ?_
  · unfold Task.lapse
    split <;> rfl
  cases hdrops : limit.drops with
  | true =>
      refine ⟨0, _, rfl, fun sec hsec => hsec, ?_⟩
      rw [if_neg hnot]
      unfold Task.lapse Limit.pc
      rw [hdrops]
      rfl
  | false =>
      have hlapse : c.task.lapse limit x =
          c.task.after x (x.refuse c.task.seen c.task.origin.timeout) := by
        unfold Task.lapse
        rw [hdrops]
        rfl
      rw [hlapse]
      refine .of_errands rfl fun d hpc' _ horigin _ _ => ⟨0, d, rfl, fun sec hsec => hsec, ?_⟩
      rw [if_neg hnot, horigin]
      unfold Limit.pc
      rw [hdrops]
      exact hpc'

end Clocked

/-- What `finish_empty` adds, if the body has ended and is tapped. -/
def Course.closes (course : Course) (upstream : Upstream) (tap : Bool) : Nat :=
  if upstream.bodyEnded = true ∧ tap = true then course.emptying else 0

/-- What it takes to begin the record of the upstream's body. -/
def Course.tapes (course : Course) (x : Handling) (upstream : Upstream) (response : Response) :
    Nat :=
  if (course.shared (.serving x (.taping upstream response) [])).captureBodies = true then
    course.storing + course.closes upstream course.storeError.isNone
  else 0

/-- What it takes to store a replacement body. -/
def Course.keeps (course : Course) (x : Handling) (response : Response) : Nat :=
  if (course.shared (.serving x (.keeping response) [])).captureBodies = true then course.storing
  else 0

/-- What the body store takes for the response made from a draft. -/
def Course.stores (course : Course) (x : Handling) (http2 : Bool) (upstream : Upstream)
    (draft : Draft) : Nat :=
  match draft.replacement with
  | some _ => course.keeps x (draft.response http2)
  | none => course.tapes x upstream (draft.response http2)

namespace Clocked

variable {c : Clocked} {x : Handling} {upstream : Upstream} {response : Response}

theorem ends_emptying (hpc : c.task.pc = .serving x (.emptying response) []) :
    c.Ends crypto k course limit x response (c.now + course.emptying) := by
  by_cases hready : c.now + course.emptying ≤ limit.time
  · exact .of_step (step_await hpc rfl hready (by simp [Course.answer]) (by simp [Course.answer]) rfl)
      rfl (ends_returned rfl hready)
  · exact ends_late hpc rfl hready (Nat.le_refl _)

theorem ends_closing {tap : Bool} (hpc : c.task.pc = .serving x (.closing upstream response tap) [])
    (hnow : c.now ≤ limit.time) :
    c.Ends crypto k course limit x response (c.now + course.closes upstream tap) := by
  unfold Course.closes
  by_cases hended : upstream.bodyEnded = true
  · cases tap with
    | true =>
        rw [if_pos ⟨hended, rfl⟩]
        refine .of_step (step_code hpc rfl (m := { op := .emptying response, seen := c.task.seen }) ?_)
          rfl (ends_emptying rfl)
        show (if (!upstream.bodyEnded) = true then _ else _) = _
        rw [hended]
        rfl
    | false =>
        rw [if_neg (by simp)]
        refine .of_step (step_code hpc rfl
          (m := { op := .returned response, todo := x.finish none, seen := c.task.seen }) ?_) rfl
          (ends_returned rfl hnow)
        show (if (!upstream.bodyEnded) = true then _ else _) = _
        rw [hended]
        rfl
  · rw [if_neg fun h => hended h.1]
    refine .of_step (step_code hpc rfl (m := { op := .returned response, seen := c.task.seen }) ?_) rfl
      (ends_returned rfl hnow)
    show (if (!upstream.bodyEnded) = true then _ else _) = _
    rw [Bool.not_eq_true] at hended
    rw [hended]
    rfl

/-- The record of the upstream's body has begun. -/
theorem ends_checking (hpc : c.task.pc = .serving x (.checking upstream response) [])
    (hnow : c.now ≤ limit.time) :
    c.Ends crypto k course limit x response (c.now + course.closes upstream true) := by
  refine .of_step (step_code hpc rfl rfl) rfl ?_
  refine .of_errands rfl fun d hpc' (hsame : d.now = c.now) _ _ _ => ?_
  rw [← hsame] at hnow ⊢
  exact ends_closing hpc' hnow

theorem ends_recording (hpc : c.task.pc = .serving x (.recording upstream response) []) :
    c.Ends crypto k course limit x response
      (c.now + course.storing + course.closes upstream course.storeError.isNone) := by
  by_cases hready : c.now + course.storing ≤ limit.time
  · cases herror : course.storeError with
    | none =>
        refine .of_step (step_await hpc rfl hready (by simp [Course.answer]) (by simp [Course.answer])
          (m := { op := .checking upstream response, act := .insert, seen := c.task.seen }) ?_) rfl
          (ends_checking rfl hready)
        show Op.step _ _ _ _ _ _ _ (.recorded course.storeError) = _
        rw [herror]
        rfl
    | some message =>
        refine .of_step (step_await hpc rfl hready (by simp [Course.answer]) (by simp [Course.answer])
          (m := { op := .closing upstream response false, seen := c.task.seen
                  todo := [.change (.responseBodyError message)] }) ?_) rfl ?_
        · show Op.step _ _ _ _ _ _ _ (.recorded course.storeError) = _
          rw [herror]
          rfl
        · refine .of_errands rfl fun d hpc' (hsame : d.now = c.now + course.storing) _ _ _ => ?_
          rw [← hsame] at hready ⊢
          exact ends_closing hpc' hready
  · exact ends_late hpc rfl hready (Nat.le_add_right _ _)

theorem ends_taping (hpc : c.task.pc = .serving x (.taping upstream response) [])
    (hnow : c.now ≤ limit.time) :
    c.Ends crypto k course limit x response (c.now + course.tapes x upstream response) := by
  unfold Course.tapes
  rw [← hpc]
  by_cases hrecord : (course.shared c.task.pc).captureBodies = true
  · rw [if_pos hrecord, ← Nat.add_assoc]
    refine .of_step (step_code hpc rfl
      (m := { op := .recording upstream response, seen := c.task.seen }) ?_) rfl (ends_recording rfl)
    show (if (course.shared c.task.pc).captureBodies = true then _ else _) = _
    rw [if_pos hrecord]
  · rw [if_neg hrecord]
    have hcloses : course.closes upstream false = 0 := if_neg (by simp)
    rw [← hcloses]
    refine .of_step (step_code hpc rfl
      (m := { op := .closing upstream response false, seen := c.task.seen }) ?_) rfl
      (ends_closing rfl hnow)
    show (if (course.shared c.task.pc).captureBodies = true then _ else _) = _
    rw [if_neg hrecord]

theorem ends_storing (hpc : c.task.pc = .serving x (.storing response) []) :
    c.Ends crypto k course limit x response (c.now + course.storing) := by
  by_cases hready : c.now + course.storing ≤ limit.time
  · cases herror : course.storeError with
    | none =>
        refine .of_step (step_await hpc rfl hready (by simp [Course.answer]) (by simp [Course.answer])
          (m := { op := .returned response, act := .insert, todo := x.finish none
                  seen := c.task.seen }) ?_) rfl (ends_returned rfl hready)
        show Op.step _ _ _ _ _ _ _ (.stored course.storeError) = _
        rw [herror]
        rfl
    | some message =>
        refine .of_step (step_await hpc rfl hready (by simp [Course.answer]) (by simp [Course.answer])
          (m := { op := .returned response, seen := c.task.seen
                  todo := .change (.responseBodyError message) :: x.finish none }) ?_) rfl
          (ends_returned rfl hready)
        show Op.step _ _ _ _ _ _ _ (.stored course.storeError) = _
        rw [herror]
        rfl
  · exact ends_late hpc rfl hready (Nat.le_refl _)

theorem ends_keeping (hpc : c.task.pc = .serving x (.keeping response) [])
    (hnow : c.now ≤ limit.time) :
    c.Ends crypto k course limit x response (c.now + course.keeps x response) := by
  unfold Course.keeps
  rw [← hpc]
  by_cases hrecord : (course.shared c.task.pc).captureBodies = true
  · rw [if_pos hrecord]
    refine .of_step (step_code hpc rfl (m := { op := .storing response, seen := c.task.seen }) ?_) rfl
      (ends_storing rfl)
    show (if (course.shared c.task.pc).captureBodies = true then _ else _) = _
    rw [if_pos hrecord]
  · rw [if_neg hrecord]
    refine .of_step (step_code hpc rfl
      (m := { op := .returned response, todo := x.finish none, seen := c.task.seen }) ?_) rfl
      (ends_returned rfl hnow)
    show (if (course.shared c.task.pc).captureBodies = true then _ else _) = _
    rw [if_neg hrecord]

theorem ends_shaping {draft : Draft} (hpc : c.task.pc = .serving x (.shaping upstream draft) [])
    (hnow : c.now ≤ limit.time) :
    c.Ends crypto k course limit x (draft.response c.task.origin.http2)
      (c.now + course.stores x c.task.origin.http2 upstream draft) := by
  have hstep (proxy : SocketAddr) (tls : Option ProxyTlsInterception) (http2 : Bool) (s : State)
      (seen : Seen) : (Op.shaping upstream draft).step proxy tls http2 s x seen .go = some {
        op := match draft.replacement with
          | some _ => .keeping (draft.response http2)
          | none => .taping upstream (draft.response http2)
        act := .change (draft.told http2), seen } := by
    show answerStep http2 s x seen (.shaping upstream draft) .go = _
    unfold answerStep Draft.told
    dsimp only
    cases draft.replacement <;> rfl
  refine .of_step (step_code hpc rfl (hstep ..)) rfl ?_
  unfold Course.stores
  cases hreplacement : draft.replacement with
  | some replacement => exact ends_keeping rfl hnow
  | none => exact ends_taping rfl hnow

/-- The pause, without a decision: the response is shaped as it was. -/
theorem ends_paused {draft : Draft} (hpc : c.task.pc = .serving x (.paused upstream draft none) [])
    {ready : Nat}
    (hready : ready = c.now + course.pause + course.stores x c.task.origin.http2 upstream draft) :
    ∃ n d, c.run crypto k course limit n = d ∧
      if ready ≤ limit.time then
        d.task.pc = .serving x (.returned (draft.response c.task.origin.http2)) [] ∧
          .update x.id (.resumed none) ∈ d.sections
      else d.task.pc = limit.pc x c.task.origin := by
  by_cases hover : c.now + course.pause ≤ limit.time
  · obtain ⟨woken, hwake, hpc₁, hnow₁, horigin₁⟩ : ∃ d, c.step crypto k course limit = some d ∧
        d.task.pc = .serving x (.shaping upstream draft) [.change (.resumed none), .announce] ∧
        d.now = c.now + course.pause ∧ d.task.origin = c.task.origin :=
      ⟨_, step_await hpc rfl hover (by simp [Course.answer]) (by simp [Course.answer]) rfl, rfl, rfl,
        rfl⟩
    obtain ⟨told, htell, hpc₂, hnow₂, horigin₂, hsec₂⟩ : ∃ d,
        woken.step crypto k course limit = some d ∧
        d.task.pc = .serving x (.shaping upstream draft) [.announce] ∧ d.now = woken.now ∧
        d.task.origin = woken.task.origin ∧ .update x.id (.resumed none) ∈ d.sections :=
      ⟨_, step_errand hpc₁, rfl, rfl, rfl, List.mem_append_right _ List.mem_cons_self⟩
    obtain ⟨announced, hannounce, hpc₃, hnow₃, horigin₃, hsec₃⟩ : ∃ d,
        told.step crypto k course limit = some d ∧
        d.task.pc = .serving x (.shaping upstream draft) [] ∧ d.now = told.now ∧
        d.task.origin = told.task.origin ∧ .update x.id (.resumed none) ∈ d.sections :=
      ⟨_, step_errand hpc₂, rfl, rfl, rfl, List.mem_append_left _ hsec₂⟩
    have hnow : announced.now = c.now + course.pause := hnow₃.trans (hnow₂.trans hnow₁)
    have horigin : announced.task.origin = c.task.origin :=
      horigin₃.trans (horigin₂.trans horigin₁)
    have hshaped : announced.Ends crypto k course limit x _ _ :=
      ends_shaping hpc₃ (hnow ▸ hover)
    obtain ⟨n, d, hrun, hsections, hend⟩ := hshaped
    refine ⟨n + 1 + 1 + 1, d, ?_, ?_⟩
    · rw [run_of_step hwake, run_of_step htell, run_of_step hannounce]
      exact hrun
    · rw [hnow, horigin, ← hready] at hend
      by_cases hin : ready ≤ limit.time
      · rw [if_pos hin] at hend ⊢
        exact ⟨hend, hsections _ hsec₃⟩
      · rw [if_neg hin] at hend ⊢
        exact hend
  · obtain ⟨n, d, hrun, -, hend⟩ : c.Ends crypto k course limit x
        (draft.response c.task.origin.http2) ready :=
      ends_late hpc rfl hover (by rw [hready]; exact Nat.le_add_right _ _)
    have hnot : ¬ ready ≤ limit.time := by
      have hle : c.now + course.pause ≤ ready := by
        rw [hready]
        exact Nat.le_add_right _ _
      omega
    rw [if_neg hnot] at hend
    exact ⟨n, d, hrun, by rw [if_neg hnot]; exact hend⟩

end Clocked

end

/-! ## The result -/

/-- In a tunnel the lifetime is a limit too. -/
theorem Course.le_limit {course : Course} {deadline ready : Nat} {origin : Origin} :
    ready ≤ (course.limit deadline origin).time ↔
      ready ≤ deadline ∧ (origin ≠ .client → ready ≤ course.lifetime) := by
  cases origin with
  | client => exact ⟨fun h => ⟨h, fun hne => absurd rfl hne⟩, And.left⟩
  | tunnel task http2 =>
      have himp : (Origin.tunnel task http2 ≠ .client → ready ≤ course.lifetime) ↔
          ready ≤ course.lifetime := ⟨fun h => h (by simp), fun h _ => h⟩
      rw [himp]
      unfold Course.limit
      by_cases hbefore : course.lifetime < deadline
      · simp only [if_pos hbefore]
        omega
      · simp only [if_neg hbefore]
        omega

theorem Course.limit_drops {course : Course} {deadline : Nat} {origin : Origin} :
    (course.limit deadline origin).drops = true ↔
      origin ≠ .client ∧ course.lifetime < deadline := by
  cases origin with
  | client => simp [Course.limit]
  | tunnel task http2 =>
      unfold Course.limit
      by_cases hbefore : course.lifetime < deadline
      · simp [hbefore]
      · simp [hbefore]

/-- How the exchange should end: with the upstream's response, made with the rule that matched,
and with the capture told that the pause timed out. -/
def Clocked.AsPromised (c : Clocked) (x : Handling) (response : Response) : Prop :=
  c.task.pc = .serving x (.returned response) [] ∧ .update x.id (.resumed none) ∈ c.sections

/-- **An undecided pause ends with the response exactly when** the time of its arrival, the
length of the pause and the time the body store takes come to no more than the deadline and, in a
tunnel, than its lifetime. Otherwise it ends with a 504, or it is dropped with a tunnel that ends
before the deadline. The rule is the one that the lookup found. -/
theorem pause_ends_with_response {crypto : Crypto} {es : List Event} {s : Engine}
    (hrun : (engine crypto).run es = some s) {k : Nat} {t : Task} (ht : s.tasks[k]? = some t)
    {x : Handling} {upstream : Upstream} {draft : Draft}
    (hpc : t.pc = .serving x (.paused upstream draft none) []) (arrived deadline : Nat)
    (course : Course) :
    t.seen.upstream = some upstream ∧ Looked x t.seen ∧
      (∀ lookup, t.seen.lookup = some lookup → LookedUp crypto es x lookup) ∧
      x.destination = .development ∧
      ∃ n c ready, Clocked.run crypto k course (course.limit deadline t.origin) n
          ⟨arrived, t, []⟩ = c ∧
        ready = arrived + course.pause + course.stores x t.origin.http2 upstream draft ∧
        (c.AsPromised x (shaped t.origin.http2 upstream t.seen.rule none) ↔
          ready ≤ deadline ∧ (t.origin ≠ .client → ready ≤ course.lifetime)) ∧
        (deadline < ready → (t.origin ≠ .client → deadline ≤ course.lifetime) →
          c.task.pc = .serving x (.refused (localResponse 504 t.origin.timeout.2)) []) ∧
        (t.origin ≠ .client → course.lifetime < ready → course.lifetime < deadline →
          c.task.pc = .gone) := by
  have hmem := List.mem_of_getElem? ht
  obtain ⟨-, -, hdrafted⟩ :=
    (Engine.told (Machine.reachable_of_run es hrun) t hmem).of_serving hpc
  cases hdrafted with
  | early hearly => cases hearly
  | returning hresponse => cases hresponse
  | paused hupstream _ hlooked hclass =>
      refine ⟨hupstream, hlooked, fun lookup => lookedUp_of_run hrun t hmem x _ [] lookup hpc, hclass,
        ?_⟩
      obtain ⟨n, d, hrun, hend⟩ :
          ∃ n d, Clocked.run crypto k course (course.limit deadline t.origin) n
            ⟨arrived, t, []⟩ = d ∧ _ :=
        Clocked.ends_paused hpc rfl
      dsimp only at hend
      refine ⟨n, d, _, hrun, rfl, ?_, fun hlate hlives => ?_, fun horigin hlate hbefore => ?_⟩
      · rw [← Course.le_limit]
        split at hend
        next hin => exact ⟨fun _ => hin, fun _ => hend⟩
        next hout =>
          refine ⟨fun hpromised => ?_, fun hin => absurd hin hout⟩
          have hreturned := hend.symm.trans hpromised.1
          unfold Limit.pc at hreturned
          split at hreturned <;> cases hreturned
      · rw [if_neg fun hin => by have := (Course.le_limit.mp hin).1; omega] at hend
        have hanswers : ¬ (course.limit deadline t.origin).drops = true := by
          intro hdrops
          obtain ⟨horigin, hbefore⟩ := Course.limit_drops.mp hdrops
          have hlives := hlives horigin
          omega
        rw [hend, Limit.pc, if_neg hanswers]
        cases t.origin <;> rfl
      · rw [if_neg fun hin => by have := (Course.le_limit.mp hin).2 horigin; omega] at hend
        rw [hend, Limit.pc, if_pos (Course.limit_drops.mpr ⟨horigin, hbefore⟩)]

/-- Nothing is recorded, and nothing takes the sender; a tunnel would have its five minutes. -/
def Course.calm : Course where
  shared _ := State.default
  senderLost := none
  storing := 0
  storeError := none
  emptying := 0
  lifetime := ProxyConfig.default.tunnelTimeout

/-- A response that arrives in the first second of thirty. -/
theorem early_pause_ends_with_response :
    ∃ s t x upstream draft, (engine .unused).run untilPaused = some s ∧ s.tasks[0]? = some t ∧
      t.pc = .serving x (.paused upstream draft none) [] ∧
      ∃ n c, Clocked.run .unused 0 .calm
          (Course.calm.limit breakingOnResponses.requestTimeout t.origin) n ⟨seconds 1, t, []⟩ = c ∧
        c.AsPromised x (shaped t.origin.http2 upstream t.seen.rule none) := by
  have hrun : ∃ s t x upstream draft, (engine .unused).run untilPaused = some s ∧
      s.tasks[0]? = some t ∧ t.pc = .serving x (.paused upstream draft none) [] ∧
      t.origin = .client ∧ draft.replacement = none :=
    ⟨_, _, _, _, _, rfl, rfl, rfl, rfl, rfl⟩
  obtain ⟨s, t, x, upstream, draft, hrun, ht, hpc, horigin, hreplacement⟩ := hrun
  obtain ⟨-, -, -, -, n, c, ready, hc, hready, hiff, -⟩ := pause_ends_with_response hrun ht hpc
    (seconds 1) breakingOnResponses.requestTimeout .calm
  have hstores : Course.calm.stores x t.origin.http2 upstream draft = 0 := by
    unfold Course.stores
    rw [hreplacement]
    rfl
  refine ⟨s, t, x, upstream, draft, hrun, ht, hpc, n, c, hc,
    hiff.mpr ⟨?_, fun hne => absurd horigin hne⟩⟩
  rw [hready, hstores]
  decide

/-- The response arrives after 20 of the 30 seconds that are the default. -/
theorem late_pause_ends_with_504 :
    (∃ s t x upstream draft n c, (engine .unused).run untilPaused = some s ∧ s.tasks[0]? = some t ∧
      t.pc = .serving x (.paused upstream draft none) [] ∧
      Clocked.run .unused 0 .calm (Course.calm.limit ProxyConfig.default.requestTimeout t.origin) n
        ⟨seconds 20, t, []⟩ = c ∧
      c.task.pc = .serving x (.refused (localResponse 504 "Upstream request timed out.")) []) ∧
    ¬ ∀ s, (engine .unused).Reachable s → ∀ k t, s.tasks[k]? = some t → ∀ x upstream draft,
      t.pc = .serving x (.paused upstream draft none) [] → ∀ arrived timeout course n c response,
      0 < timeout → timeout ≤ seconds 300 → arrived ≤ timeout →
      Clocked.run .unused k course (course.limit timeout t.origin) n ⟨arrived, t, []⟩ = c →
      c.task.pc ≠ .serving x (.refused response) [] := by
  have hrun : ∃ s t x upstream draft n c, (engine .unused).run untilPaused = some s ∧
      s.tasks[0]? = some t ∧ t.pc = .serving x (.paused upstream draft none) [] ∧
      Clocked.run .unused 0 .calm (Course.calm.limit ProxyConfig.default.requestTimeout t.origin) n
        ⟨seconds 20, t, []⟩ = c ∧
      c.task.pc = .serving x (.refused (localResponse 504 "Upstream request timed out.")) [] :=
    ⟨_, _, _, _, _, 4, _, rfl, rfl, rfl, rfl, rfl⟩
  refine ⟨hrun, fun hall => ?_⟩
  obtain ⟨s, t, x, upstream, draft, n, c, hrun, ht, hpc, hc, hrefused⟩ := hrun
  exact hall s (Machine.reachable_of_run _ hrun) 0 t ht x upstream draft hpc (seconds 20)
    ProxyConfig.default.requestTimeout .calm n c _ (by decide) (by decide) (by decide) hc hrefused

end SippinSoda
