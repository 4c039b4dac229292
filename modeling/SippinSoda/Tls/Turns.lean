import SippinSoda.Tls.TrustSteps

/-!
# Turns of `start` and `cancel`

`start` records the handle of its task long after it has taken the handle of the one before, so
a start that overlaps with another start or with a cancel leaves a task that nobody aborts. Where
calls take their turns there is none.

* **InTurn** — the turns;
* **Locked** — who has the lock and the handle;
* **Tracked** — a task that may be live is in the handle, or a call has hold of it;
* **Ceased** — what a cancel leaves behind.
-/

namespace SippinSoda

/-! ## Turns -/

/-- The call has not begun, or has returned. -/
def TrustCallPoint.idle : TrustCallPoint → Bool
  | .invoked | .returned _ => true
  | _ => false

/-- A `start` there has not written its status yet, or has returned. -/
def TrustCallPoint.early : TrustCallPoint → Bool
  | .announced _ | .emptied _ | .spawned _ _ => false
  | _ => true

def TrustCallPoint.over : TrustCallPoint → Bool
  | .returned _ => true
  | _ => false

theorem TrustCallPoint.over_iff {point : TrustCallPoint} :
    point.over = true ↔ ∃ result, point = .returned result := by
  cases point <;> simp [TrustCallPoint.over]

/-- A start takes the handle while no other is under way. -/
def Trust.StartInTurn (s : Trust) : Prop :=
  ∀ other ∈ s.calls, other.kind.starts = true → other.point.idle = true

/-- A cancel takes the handle when all starts invoked before it have returned, and none has
written its status and not returned. -/
def Trust.CancelInTurn (s : Trust) (k : Nat) : Prop :=
  (∀ other ∈ s.calls.take k, other.kind.starts = true → other.point.over = true) ∧
    ∀ other ∈ s.calls, other.kind.starts = true → other.point.early = true

/-- A start writes its status while no cancel is under way. -/
def Trust.AnnounceInTurn (s : Trust) : Prop :=
  ∀ other ∈ s.calls, other.kind.starts = false → other.point.idle = true

/-- A start that finds no endpoint has not cut off a check. -/
def Trust.GiveUpInTurn (s : Trust) (taken : Option Nat) : Prop :=
  ∀ i ∈ taken, ∀ check ∈ s.checks[i]?, check.point ≠ .cutOff

/-- The step of call `k` from that point takes its turn. -/
def Trust.CallInTurn (s : Trust) (k : Nat) (kind : TrustCallKind) (answer : TrustCallAnswer) :
    TrustCallPoint → Prop
  | .invoked => if kind.starts = true then s.StartInTurn else s.CancelInTurn k
  | .bound _ => s.AnnounceInTurn
  | .cleared taken => answer = .notBound ∨ answer = .noAddress → s.GiveUpInTurn taken
  | _ => True

/-- The step takes its turn. -/
def Trust.InTurn (s : Trust) : TrustEvent → Prop
  | .call k answer => ∀ call ∈ s.calls[k]?, s.CallInTurn k call.kind answer call.point
  | _ => True

instance (s : Trust) (k : Nat) (kind : TrustCallKind) (answer : TrustCallAnswer) :
    ∀ point, Decidable (s.CallInTurn k kind answer point)
  | .invoked =>
      have : Decidable s.StartInTurn :=
        inferInstanceAs (Decidable (∀ other ∈ s.calls, _ = true → _ = true))
      have : Decidable (s.CancelInTurn k) :=
        inferInstanceAs (Decidable ((∀ other ∈ s.calls.take k, _ = true → _ = true) ∧
          ∀ other ∈ s.calls, _ = true → _ = true))
      inferInstanceAs (Decidable (if kind.starts = true then s.StartInTurn else s.CancelInTurn k))
  | .bound _ => inferInstanceAs (Decidable (∀ other ∈ s.calls, _ = false → _ = true))
  | .cleared taken =>
      have : Decidable (s.GiveUpInTurn taken) :=
        inferInstanceAs (Decidable (∀ i ∈ taken, ∀ check ∈ s.checks[i]?, check.point ≠ .cutOff))
      inferInstanceAs (Decidable (answer = .notBound ∨ answer = .noAddress → s.GiveUpInTurn taken))
  | .joining _ | .announced _ | .emptied _ | .spawned _ _ | .closing | .returned _ =>
      .isTrue trivial

instance (s : Trust) : ∀ e, Decidable (s.InTurn e)
  | .call k _ => inferInstanceAs (Decidable (∀ call ∈ s.calls[k]?, _))
  | .start _ _ _ | .cancel | .check _ _ | .generate _ _ _ | .remove _ _ | .rewrite _
  | .prepare _ _ _ _ | .preparation _ _ | .time _ => .isTrue trivial

theorem Trust.CallInTurn.start {s : Trust} {k : Nat} {kind : TrustCallKind}
    {answer : TrustCallAnswer} (h : s.CallInTurn k kind answer .invoked)
    (hstarts : kind.starts = true) : s.StartInTurn := by
  rw [CallInTurn, if_pos hstarts] at h
  exact h

theorem Trust.CallInTurn.cancel {s : Trust} {k : Nat} {kind : TrustCallKind}
    {answer : TrustCallAnswer} (h : s.CallInTurn k kind answer .invoked) (hcancel : kind.starts = false) :
    s.CancelInTurn k := by
  rw [CallInTurn, if_neg (by simp [hcancel])] at h
  exact h

/-! ## The lock -/

/-- The call has the handle, or is a start that has to leave one. -/
def TrustCall.busy (call : TrustCall) : Bool :=
  match call.point with
  | .joining _ => true
  | .cleared _ | .bound _ | .announced _ | .emptied _ | .spawned _ _ => call.kind.starts
  | .invoked | .closing | .returned _ => false

/-- What at most one call has at a time. -/
def TrustCall.turn (call : TrustCall) : Option Unit := if call.busy then some () else none

/-- Who has the lock and the handle. -/
structure Trust.Locked (s : Trust) : Prop where
  lock : ∀ k call i, s.calls[k]? = some call → call.point = .joining i → s.lock = some k
  turn : SingleOwner TrustCall.turn s.calls
  vacant : ∀ call ∈ s.calls, call.busy = true → s.running = none

theorem TrustCall.turn_of_busy {call : TrustCall} (h : call.busy = true) : call.turn = some () :=
  if_pos h

theorem TrustCall.turn_eq_some {call : TrustCall} {v : Unit} :
    call.turn = some v ↔ call.busy = true := by
  unfold TrustCall.turn
  split <;> simp_all

theorem TrustCall.busy_of_joining {call : TrustCall} {i : Nat} (h : call.point = .joining i) :
    call.busy = true := by
  rw [TrustCall.busy, h]

theorem TrustCall.busy_of_spawned {call : TrustCall} {i : Nat} {waiting : TlsTrustCheckStatus}
    (hstarts : call.kind.starts = true) (h : call.point = .spawned i waiting) :
    call.busy = true := by
  rw [TrustCall.busy, h]
  exact hstarts

namespace Trust.Locked

variable {s s' : Trust} {k : Nat} {call : TrustCall}

/-- Two busy calls are one. -/
theorem eq_of_busy (h : s.Locked) {j : Nat} {other : TrustCall} (hj : s.calls[j]? = some other)
    (hk : s.calls[k]? = some call) (hother : other.busy = true) (hcall : call.busy = true) :
    j = k :=
  h.turn hj hk (TrustCall.turn_of_busy hother) (TrustCall.turn_of_busy hcall)

/-- Nobody is joining while the lock is free. -/
theorem not_joining (h : s.Locked) (hlock : s.lock = none) {other : TrustCall}
    (hother : other ∈ s.calls) {i : Nat} : other.point ≠ .joining i := by
  intro hpoint
  obtain ⟨j, hj⟩ := List.mem_iff_getElem?.mp hother
  rw [h.lock j other i hj hpoint] at hlock
  cases hlock

/-- A call that is under way moves on: it stays the one, or is done. -/
theorem move (h : s.Locked) (hk : s.calls[k]? = some call) {point : TrustCallPoint}
    (hcalls : s'.calls = s.calls.set k { call with point := point })
    (hlock : s'.lock = s.lock) (hpoint : ∀ i, point ≠ .joining i)
    (hbusy : ({ call with point := point } : TrustCall).busy = true → call.busy = true)
    (hrunning : s'.running = s.running ∨
      call.busy = true ∧ ({ call with point := point } : TrustCall).busy = false) : s'.Locked where
  lock := by
    intro j other i hj hother
    rw [hcalls] at hj
    rcases SingleOwner.getElem?_set_cases hj with ⟨-, rfl⟩ | ⟨-, hj⟩
    · exact absurd hother (hpoint i)
    · exact hlock ▸ h.lock j other i hj hother
  turn := by
    rw [hcalls]
    exact h.turn.set hk fun v hv =>
      .inl (TrustCall.turn_eq_some.mpr (hbusy (TrustCall.turn_eq_some.mp hv)))
  vacant := by
    intro other hother hother'
    obtain ⟨j, hj⟩ := List.mem_iff_getElem?.mp hother
    rw [hcalls] at hj
    rcases SingleOwner.getElem?_set_cases hj with ⟨-, rfl⟩ | ⟨hne, hj⟩
    · rcases hrunning with hrunning | ⟨-, hdone⟩
      · exact hrunning ▸ h.vacant call (List.mem_of_getElem? hk) (hbusy hother')
      · rw [hdone] at hother'
        cases hother'
    · rcases hrunning with hrunning | ⟨hcall, -⟩
      · exact hrunning ▸ h.vacant other (List.mem_of_getElem? hj) hother'
      · exact absurd (h.eq_of_busy hj hk hother' hcall) hne

theorem callMove {answer : TrustCallAnswer} (h : s.Locked) (hk : s.calls[k]? = some call)
    (hturn : s.CallInTurn k call.kind answer call.point)
    (hmove : TrustCallMove s k call answer s') : s'.Locked := by
  cases hmove with
  | vacant hpoint hlock hrunning =>
      rw [hpoint] at hturn
      refine ⟨?_, h.turn.set hk fun v hv => .inr fun other hother => ?_, fun _ _ _ => hrunning⟩
      · intro j other i hj hother
        rcases SingleOwner.getElem?_set_cases hj with ⟨-, rfl⟩ | ⟨-, hj⟩
        · cases hother
        · exact absurd hother (h.not_joining hlock (List.mem_of_getElem? hj))
      · -- a start takes its turn, so no other is under way
        intro hbusy
        have hbusy : other.busy = true := TrustCall.turn_eq_some.mp hbusy
        have hstarts : call.kind.starts = true := TrustCall.turn_eq_some.mp hv
        have hidle := hturn.start hstarts other hother
        unfold TrustCall.busy at hbusy
        split at hbusy
        next i hjoining => exact h.not_joining hlock hother hjoining
        all_goals first
          | cases hbusy
          | next heq =>
              have := hidle hbusy
              rw [heq] at this
              cases this
  | take hpoint hlock hrunning =>
      refine ⟨?_, h.turn.set hk fun v hv => .inr fun other hother hbusy => ?_, fun _ _ _ => rfl⟩
      · intro j other i' hj hother
        rcases SingleOwner.getElem?_set_cases hj with ⟨rfl, rfl⟩ | ⟨-, hj⟩
        · rfl
        · exact absurd hother (h.not_joining hlock (List.mem_of_getElem? hj))
      · have hnone := h.vacant other hother (TrustCall.turn_eq_some.mp hbusy)
        rw [hrunning] at hnone
        cases hnone
  | joined hpoint hcheck hlive =>
      have hbusy : call.busy = true := TrustCall.busy_of_joining hpoint
      refine ⟨?_, h.turn.set hk fun _ _ => .inl (TrustCall.turn_of_busy hbusy), ?_⟩
      · intro j other i hj hother
        rcases SingleOwner.getElem?_set_cases hj with ⟨-, rfl⟩ | ⟨hne, hj⟩
        · cases hother
        · exact absurd (h.eq_of_busy hj hk (TrustCall.busy_of_joining hother) hbusy) hne
      · intro other _ _
        exact h.vacant call (List.mem_of_getElem? hk) hbusy
  | bind hstarts hpoint | announce hstarts hpoint | empty hstarts hpoint | spawn hstarts hpoint =>
      refine h.move hk rfl rfl nofun (fun _ => ?_) (.inl rfl)
      rw [TrustCall.busy, hpoint]
      exact hstarts
  | giveUp hstarts hpoint => exact h.move hk rfl rfl nofun nofun (.inl rfl)
  | record hstarts hpoint =>
      exact h.move hk rfl rfl nofun nofun (.inr ⟨TrustCall.busy_of_spawned hstarts hpoint, rfl⟩)
  | close hcancel hpoint | settle hcancel hpoint => exact h.move hk rfl rfl nofun nofun (.inl rfl)

end Trust.Locked

/-! ## The handle -/

/-- The check that the call has taken, or started and not recorded. -/
def TrustCall.holds (call : TrustCall) : Option Nat :=
  match call.point with
  | .joining i => some i
  | .spawned i _ => if call.kind.starts then some i else none
  | _ => none

/-- A cancel that is under way. -/
def TrustCall.cancels (call : TrustCall) : Bool := !call.kind.starts && !call.point.idle

/-- What is known of a check that may be live. -/
structure Trust.Tracked (s : Trust) : Prop where
  live : ∀ i check, s.checks[i]? = some check → check.point.live = true →
    s.running = some i ∨ ∃ call ∈ s.calls, call.holds = some i
  aborted : ∀ i check, s.checks[i]? = some check → check.point.live = true →
    check.aborted = true → ∃ call ∈ s.calls, call.point = .joining i
  running : ∀ i, s.running = some i → s.latest = some i
  held : ∀ call ∈ s.calls, call.kind.starts = true → ∀ i, call.holds = some i → s.latest = some i
  newest : ∀ i, s.latest = some i → i + 1 = s.checks.length
  cancelling : ∀ call ∈ s.calls, call.cancels = true → s.latest = none ∧ s.running = none ∧
    ((∀ i, call.point ≠ .joining i) → s.lock = none) ∧
    ∀ other ∈ s.calls, other.kind.starts = true → other.point.early = true

theorem TrustCall.holds_spawned {call : TrustCall} (hstarts : call.kind.starts = true) {i : Nat}
    {waiting : TlsTrustCheckStatus} :
    ({ call with point := .spawned i waiting } : TrustCall).holds = some i :=
  if_pos hstarts

theorem TrustCall.busy_of_holds {call : TrustCall} {i : Nat} (h : call.holds = some i) :
    call.busy = true := by
  unfold TrustCall.holds at h
  split at h
  next hpoint => exact TrustCall.busy_of_joining hpoint
  next hpoint =>
    split at h
    next hstarts => exact TrustCall.busy_of_spawned hstarts hpoint
    · cases h
  · cases h

/-- A call that holds a check awaits it, or has to record it. -/
theorem TrustCall.holds_cases {call : TrustCall} {i : Nat} (h : call.holds = some i) :
    call.point = .joining i ∨ call.kind.starts = true ∧ call.point.early = false := by
  unfold TrustCall.holds at h
  split at h
  next hpoint =>
    cases h
    exact .inl hpoint
  next hpoint =>
    split at h
    next hstarts => exact .inr ⟨hstarts, by rw [hpoint]; rfl⟩
    · cases h
  · cases h

/-- Something that one member of a list has, another has after the replacement of one. -/
theorem exists_mem_set {α : Type} {l : List α} {k : Nat} {a b : α} {Q : α → Prop}
    (hk : l[k]? = some a) (hab : Q a → Q b) (h : ∃ x ∈ l, Q x) : ∃ x ∈ l.set k b, Q x := by
  obtain ⟨x, hx, hq⟩ := h
  obtain ⟨j, hj⟩ := List.mem_iff_getElem?.mp hx
  have hlt : k < l.length := (List.getElem?_eq_some_iff.mp hk).1
  by_cases hjk : j = k
  · obtain rfl : x = a := Option.some.inj (hj.symm.trans (hjk ▸ hk))
    exact ⟨b, List.mem_set hlt b, hab hq⟩
  · refine ⟨x, List.mem_of_getElem? (i := j) ?_, hq⟩
    rw [List.getElem?_set_ne (Ne.symm hjk)]
    exact hj

namespace Trust.Tracked

variable {s s' : Trust} {k : Nat} {call : TrustCall} {answer : TrustCallAnswer}

/-- No cancel is under way while a start has written its status and not returned. -/
theorem not_cancelling (h : s.Tracked) (hcall : call ∈ s.calls)
    (hstarts : call.kind.starts = true) (hlate : call.point.early = false) {other : TrustCall}
    (hother : other ∈ s.calls) : other.cancels = false := by
  cases hcancels : other.cancels with
  | false => rfl
  | true =>
      have hearly := (h.cancelling other hother hcancels).2.2.2 call hcall hstarts
      rw [hlate] at hearly
      cases hearly

/-- A call goes on that holds no check. -/
theorem move (h : s.Tracked) (hk : s.calls[k]? = some call) {point : TrustCallPoint}
    (hcalls : s'.calls = s.calls.set k { call with point := point })
    (hsame : s'.checks = s.checks ∧ s'.running = s.running ∧ s'.latest = s.latest ∧
      s'.lock = s.lock)
    (hholds : call.holds = none) (hholds' : ({ call with point := point } : TrustCall).holds = none)
    (hcancels : ({ call with point := point } : TrustCall).cancels = true → call.cancels = true)
    (hearly : call.kind.starts = true →
      point.early = true ∨ ∀ other ∈ s.calls, other.cancels = false) : s'.Tracked := by
  obtain ⟨hchecks, hrunning, hlatest, hlock⟩ := hsame
  have hjoining (i : Nat) : call.point ≠ .joining i := by
    intro hpoint
    rw [TrustCall.holds, hpoint] at hholds
    cases hholds
  refine ⟨?_, ?_, ?_, ?_, ?_, ?_⟩
  · intro i check hcheck hlive
    rw [hchecks] at hcheck
    rw [hrunning, hcalls]
    refine (h.live i check hcheck hlive).imp_right (exists_mem_set hk fun hcall => ?_)
    rw [hholds] at hcall
    cases hcall
  · intro i check hcheck hlive haborted
    rw [hchecks] at hcheck
    rw [hcalls]
    exact exists_mem_set hk (fun hcall => absurd hcall (hjoining i))
      (h.aborted i check hcheck hlive haborted)
  · intro i hi
    rw [hlatest]
    exact h.running i (hrunning ▸ hi)
  · intro other hother hstarts i hi
    rw [hlatest]
    rw [hcalls] at hother
    rcases List.mem_or_eq_of_mem_set hother with hother | rfl
    · exact h.held other hother hstarts i hi
    · rw [hholds'] at hi
      cases hi
  · intro i hi
    rw [hchecks]
    exact h.newest i (hlatest ▸ hi)
  · intro other hother hother'
    rw [hlatest, hrunning, hlock]
    have hbefore : ∃ old ∈ s.calls, old.cancels = true ∧
        ((∀ i, other.point ≠ .joining i) → ∀ i, old.point ≠ .joining i) := by
      rw [hcalls] at hother
      rcases List.mem_or_eq_of_mem_set hother with hother | rfl
      · exact ⟨other, hother, hother', id⟩
      · exact ⟨call, List.mem_of_getElem? hk, hcancels hother', fun _ => hjoining⟩
    obtain ⟨old, hold, hcancel, hpoint⟩ := hbefore
    have hcancelling := h.cancelling old hold hcancel
    refine ⟨hcancelling.1, hcancelling.2.1, fun hnot => hcancelling.2.2.1 (hpoint hnot), ?_⟩
    intro start hstart hstarts
    rw [hcalls] at hstart
    rcases List.mem_or_eq_of_mem_set hstart with hstart | rfl
    · exact hcancelling.2.2.2 start hstart hstarts
    · rcases hearly hstarts with hearly | hnone
      · exact hearly
      · rw [hnone old hold] at hcancel
        cases hcancel

/-- While the lock is free and no start has to record its check, no check is live but the one in
the handle. -/
theorem live_running (h : s.Tracked) (hlocked : s.Locked) (hlock : s.lock = none)
    (hearly : ∀ other ∈ s.calls, other.kind.starts = true → other.point.early = true)
    {i : Nat} {check : Check} (hcheck : s.checks[i]? = some check)
    (hlive : check.point.live = true) : s.running = some i := by
  rcases h.live i check hcheck hlive with hrunning | ⟨other, hother, hholds⟩
  · exact hrunning
  · rcases TrustCall.holds_cases hholds with hjoining | ⟨hstarts, hlate⟩
    · exact absurd hjoining (hlocked.not_joining hlock hother)
    · rw [hearly other hother hstarts] at hlate
      cases hlate

/-- Nobody holds a check while there is a handle. -/
theorem holds_none (hlocked : s.Locked) {i : Nat} (hrunning : s.running = some i)
    {other : TrustCall} (hother : other ∈ s.calls) : other.holds = none := by
  cases hholds : other.holds with
  | none => rfl
  | some j =>
      have hnone := hlocked.vacant other hother (TrustCall.busy_of_holds hholds)
      rw [hrunning] at hnone
      cases hnone

theorem vacant (h : s.Tracked) (hlocked : s.Locked) (hk : s.calls[k]? = some call)
    (hturn : s.CallInTurn k call.kind answer .invoked) (hpoint : call.point = .invoked)
    (hlock : s.lock = none) (hrunning : s.running = none) :
    ({ s with latest := call.kind.latest s.latest }.moveTo k call (.cleared none)).Tracked := by
  have hjoining : ∀ i, call.point ≠ .joining i := by simp [hpoint]
  refine ⟨?_, ?_, ?_, ?_, ?_, ?_⟩
  · intro i check hcheck hlive
    refine (h.live i check hcheck hlive).imp_right (exists_mem_set hk fun hholds => ?_)
    rw [TrustCall.holds, hpoint] at hholds
    cases hholds
  · intro i check hcheck hlive haborted
    exact exists_mem_set hk (fun hcall => absurd hcall (hjoining i))
      (h.aborted i check hcheck hlive haborted)
  · intro i hi
    exact absurd (hrunning.symm.trans hi) nofun
  · intro other hother hstarts i hi
    rcases List.mem_or_eq_of_mem_set hother with hother | rfl
    · show call.kind.latest s.latest = some i
      cases hcall : call.kind.starts with
      | true =>
          rw [TrustCallKind.latest_of_starts hcall]
          exact h.held other hother hstarts i hi
      | false =>
          rcases TrustCall.holds_cases hi with hother' | ⟨-, hlate⟩
          · exact absurd hother' (hlocked.not_joining hlock hother)
          · rw [(hturn.cancel hcall).2 other hother hstarts] at hlate
            cases hlate
    · cases hi
  · exact fun i hi => h.newest i (TrustCallKind.latest_eq_some hi)
  · intro other hother hcancels
    have hlatest : call.kind.latest s.latest = none ∧
        ∀ start ∈ s.calls, start.kind.starts = true → start.point.early = true := by
      cases hcall : call.kind.starts with
      | true =>
          rcases List.mem_or_eq_of_mem_set hother with hother | rfl
          · have hcancelling := h.cancelling other hother hcancels
            exact ⟨(TrustCallKind.latest_of_starts hcall _).trans hcancelling.1, hcancelling.2.2.2⟩
          · simp [TrustCall.cancels, hcall] at hcancels
      | false => exact ⟨TrustCallKind.latest_of_cancel hcall _, (hturn.cancel hcall).2⟩
    refine ⟨hlatest.1, hrunning, fun _ => hlock, ?_⟩
    intro start hstart hstarts
    rcases List.mem_or_eq_of_mem_set hstart with hstart | rfl
    · exact hlatest.2 start hstart hstarts
    · rfl

theorem take {i : Nat} (h : s.Tracked) (hlocked : s.Locked) (hk : s.calls[k]? = some call)
    (hturn : s.CallInTurn k call.kind answer .invoked) (hlock : s.lock = none)
    (hrunning : s.running = some i) :
    (({ s with running := none, lock := some k, latest := call.kind.latest s.latest }.abort
      i).moveTo k call (.joining i)).Tracked := by
  have hlt : k < s.calls.length := (List.getElem?_eq_some_iff.mp hk).1
  have hself : ({ call with point := .joining i } : TrustCall) ∈
      s.calls.set k { call with point := .joining i } := List.mem_set hlt _
  refine ⟨?_, ?_, nofun, ?_, ?_, ?_⟩
  · intro j check hcheck hlive
    obtain ⟨before, aborted, hbefore, rfl, -⟩ := getElem?_abort hcheck
    refine .inr ⟨_, hself, ?_⟩
    rcases h.live j before hbefore hlive with hj | ⟨other, hother, hholds⟩
    · exact congrArg some (Option.some.inj (hrunning.symm.trans hj))
    · rw [holds_none hlocked hrunning hother] at hholds
      cases hholds
  · intro j check hcheck hlive haborted
    obtain ⟨before, aborted, hbefore, rfl, hwas⟩ := getElem?_abort hcheck
    rcases hwas haborted with hwas | rfl
    · obtain ⟨other, hother, hjoining⟩ := h.aborted j before hbefore hlive hwas
      exact absurd hjoining (hlocked.not_joining hlock hother)
    · exact ⟨_, hself, rfl⟩
  · intro other hother hstarts j hj
    rcases List.mem_or_eq_of_mem_set hother with hother | rfl
    · rw [holds_none hlocked hrunning hother] at hj
      cases hj
    · cases hj
      show call.kind.latest s.latest = some i
      rw [TrustCallKind.latest_of_starts hstarts]
      exact h.running i hrunning
  · intro j hj
    show j + 1 = (s.checks.modify i _).length
    rw [List.length_modify]
    exact h.newest j (TrustCallKind.latest_eq_some hj)
  · intro other hother hcancels
    rcases List.mem_or_eq_of_mem_set hother with hother | rfl
    · have hnone := (h.cancelling other hother hcancels).2.1
      rw [hrunning] at hnone
      cases hnone
    · have hcall : call.kind.starts = false := by
        simpa [TrustCall.cancels, TrustCallPoint.idle] using hcancels
      refine ⟨TrustCallKind.latest_of_cancel hcall _, rfl, fun hnot => absurd rfl (hnot i), ?_⟩
      intro start hstart hstarts
      rcases List.mem_or_eq_of_mem_set hstart with hstart | rfl
      · exact (hturn.cancel hcall).2 start hstart hstarts
      · rfl

theorem joined {i : Nat} {check : Check} (h : s.Tracked)
    (hk : s.calls[k]? = some call) (hpoint : call.point = .joining i)
    (hcheck : s.checks[i]? = some check) (hlive : check.point.live = false) :
    ({ s with lock := none }.moveTo k call (.cleared (some i))).Tracked := by
  have hdead {j : Nat} {other : Check} (hother : s.checks[j]? = some other)
      (hlive' : other.point.live = true) : j ≠ i := by
    rintro rfl
    cases hcheck.symm.trans hother
    rw [hlive] at hlive'
    cases hlive'
  refine ⟨?_, ?_, h.running, ?_, h.newest, ?_⟩
  · intro j other hother hlive'
    refine (h.live j other hother hlive').imp_right (exists_mem_set hk fun hholds => ?_)
    rw [TrustCall.holds, hpoint] at hholds
    exact absurd (Option.some.inj hholds).symm (hdead hother hlive')
  · intro j other hother hlive' haborted
    refine exists_mem_set hk (fun hjoining => ?_) (h.aborted j other hother hlive' haborted)
    cases hpoint.symm.trans hjoining
    exact absurd rfl (hdead hother hlive')
  · intro other hother hstarts j hj
    rcases List.mem_or_eq_of_mem_set hother with hother | rfl
    · exact h.held other hother hstarts j hj
    · cases hj
  · intro other hother hcancels
    have hbefore : ∃ old ∈ s.calls, old.cancels = true := by
      rcases List.mem_or_eq_of_mem_set hother with hother | rfl
      · exact ⟨other, hother, hcancels⟩
      · refine ⟨call, List.mem_of_getElem? hk, ?_⟩
        rw [TrustCall.cancels, hpoint]
        exact hcancels
    obtain ⟨old, hold, hcancel⟩ := hbefore
    have hcancelling := h.cancelling old hold hcancel
    refine ⟨hcancelling.1, hcancelling.2.1, fun _ => rfl, ?_⟩
    intro start hstart hstarts
    rcases List.mem_or_eq_of_mem_set hstart with hstart | rfl
    · exact hcancelling.2.2.2 start hstart hstarts
    · rfl

theorem spawn {waiting : TlsTrustCheckStatus} {leaf : IssuedLeaf} {client : TlsClientIdentity}
    (h : s.Tracked) (hlocked : s.Locked) (hk : s.calls[k]? = some call)
    (hstarts : call.kind.starts = true) (hpoint : call.point = .emptied waiting) :
    ({ s with
        checks := s.checks ++ [Check.mk k leaf client waiting false .running]
        latest := some s.checks.length }.moveTo k call
          (.spawned s.checks.length waiting)).Tracked := by
  have hcall : call ∈ s.calls := List.mem_of_getElem? hk
  have hbusy : call.busy = true := by
    rw [TrustCall.busy, hpoint]
    exact hstarts
  have hrunning : s.running = none := hlocked.vacant call hcall hbusy
  have hself : ({ call with point := .spawned s.checks.length waiting } : TrustCall) ∈
      s.calls.set k { call with point := .spawned s.checks.length waiting } :=
    List.mem_set (List.getElem?_eq_some_iff.mp hk).1 _
  have hidle {other : TrustCall} (hother : other ∈ s.calls) {i : Nat} : other.holds ≠ some i := by
    intro hholds
    obtain ⟨j, hj⟩ := List.mem_iff_getElem?.mp hother
    obtain rfl := hlocked.eq_of_busy hj hk (TrustCall.busy_of_holds hholds) hbusy
    cases hk.symm.trans hj
    rw [TrustCall.holds, hpoint] at hholds
    cases hholds
  refine ⟨?_, ?_, fun i hi => absurd (hrunning.symm.trans hi) nofun, ?_, ?_, ?_⟩
  · intro i check hcheck hlive
    rcases SingleOwner.getElem?_append_cases hcheck with ⟨rfl, rfl⟩ | hcheck
    · exact .inr ⟨_, hself, TrustCall.holds_spawned hstarts⟩
    · rcases h.live i check hcheck hlive with hi | ⟨other, hother, hholds⟩
      · exact absurd (hrunning.symm.trans hi) nofun
      · exact absurd hholds (hidle hother)
  · intro i check hcheck hlive haborted
    rcases SingleOwner.getElem?_append_cases hcheck with ⟨rfl, rfl⟩ | hcheck
    · cases haborted
    · refine exists_mem_set hk (fun hjoining => ?_) (h.aborted i check hcheck hlive haborted)
      cases hpoint.symm.trans hjoining
  · intro other hother _ i hi
    rcases List.mem_or_eq_of_mem_set hother with hother | rfl
    · exact absurd hi (hidle hother)
    · exact (TrustCall.holds_spawned hstarts).symm.trans hi
  · intro i hi
    cases hi
    show s.checks.length + 1 = (s.checks ++ [_]).length
    rw [List.length_append]
    rfl
  · intro other hother hcancels
    rcases List.mem_or_eq_of_mem_set hother with hother | rfl
    · rw [h.not_cancelling hcall hstarts (by rw [hpoint]; rfl) hother] at hcancels
      cases hcancels
    · simp [TrustCall.cancels, hstarts] at hcancels

theorem record {i : Nat} {waiting : TlsTrustCheckStatus} (h : s.Tracked) (hlocked : s.Locked)
    (hk : s.calls[k]? = some call) (hstarts : call.kind.starts = true)
    (hpoint : call.point = .spawned i waiting) :
    ({ s with running := some i }.moveTo k call (.returned (.ok waiting))).Tracked := by
  have hcall : call ∈ s.calls := List.mem_of_getElem? hk
  have hholds : call.holds = some i := by
    rw [TrustCall.holds, hpoint]
    exact if_pos hstarts
  have hrunning : s.running = none :=
    hlocked.vacant call hcall (TrustCall.busy_of_spawned hstarts hpoint)
  have hlatest : s.latest = some i := h.held call hcall hstarts i hholds
  refine ⟨?_, ?_, fun j hj => hj ▸ hlatest, ?_, h.newest, ?_⟩
  · intro j check hcheck hlive
    rcases h.live j check hcheck hlive with hj | hj
    · exact absurd (hrunning.symm.trans hj) nofun
    · obtain ⟨other, hother, hj⟩ := hj
      obtain ⟨n, hn⟩ := List.mem_iff_getElem?.mp hother
      obtain rfl := hlocked.eq_of_busy hn hk (TrustCall.busy_of_holds hj)
        (TrustCall.busy_of_spawned hstarts hpoint)
      cases hk.symm.trans hn
      exact .inl (hholds.symm.trans hj)
  · intro j check hcheck hlive haborted
    refine exists_mem_set hk (fun hjoining => ?_) (h.aborted j check hcheck hlive haborted)
    cases hpoint.symm.trans hjoining
  · intro other hother hstarts' j hj
    rcases List.mem_or_eq_of_mem_set hother with hother | rfl
    · exact h.held other hother hstarts' j hj
    · cases hj
  · intro other hother hcancels
    rcases List.mem_or_eq_of_mem_set hother with hother | rfl
    · rw [h.not_cancelling hcall hstarts (by rw [hpoint]; rfl) hother] at hcancels
      cases hcancels
    · simp [TrustCall.cancels, hstarts] at hcancels

theorem callMove (h : s.Tracked) (hlocked : s.Locked) (hk : s.calls[k]? = some call)
    (hturn : s.CallInTurn k call.kind answer call.point)
    (hmove : TrustCallMove s k call answer s') : s'.Tracked := by
  have hholds {point : TrustCallPoint} (hpoint : call.point = point)
      (hnone : ({ call with point := point } : TrustCall).holds = none) : call.holds = none := by
    cases call
    cases hpoint
    exact hnone
  cases hmove with
  | vacant hpoint hlock hrunning => exact h.vacant hlocked hk (hpoint ▸ hturn) hpoint hlock hrunning
  | take hpoint hlock hrunning => exact h.take hlocked hk (hpoint ▸ hturn) hlock hrunning
  | joined hpoint hcheck hlive => exact h.joined hk hpoint hcheck hlive
  | spawn hstarts hpoint => exact h.spawn hlocked hk hstarts hpoint
  | record hstarts hpoint => exact h.record hlocked hk hstarts hpoint
  | bind hstarts hpoint | giveUp hstarts hpoint =>
      refine h.move hk rfl ⟨rfl, rfl, rfl, rfl⟩ (hholds hpoint rfl) rfl (fun hcancels => ?_)
        fun _ => .inl rfl
      simp [TrustCall.cancels, hstarts] at hcancels
  | announce hstarts hpoint =>
      rw [hpoint] at hturn
      refine h.move hk rfl ⟨rfl, rfl, rfl, rfl⟩ (hholds hpoint rfl) rfl (fun hcancels => ?_)
        fun _ => .inr fun other hother => ?_
      · simp [TrustCall.cancels, hstarts] at hcancels
      · -- it is the announcement's turn, so no cancel is under way
        cases hkind : other.kind.starts with
        | true => simp [TrustCall.cancels, hkind]
        | false =>
            have hidle := hturn other hother hkind
            simp [TrustCall.cancels, hidle]
  | empty hstarts hpoint =>
      refine h.move hk rfl ⟨rfl, rfl, rfl, rfl⟩ (hholds hpoint rfl) rfl (fun hcancels => ?_)
        fun _ => .inr fun other hother => ?_
      · simp [TrustCall.cancels, hstarts] at hcancels
      · exact h.not_cancelling (List.mem_of_getElem? hk) hstarts (by rw [hpoint]; rfl) hother
  | close hcancel hpoint =>
      refine h.move hk rfl ⟨rfl, rfl, rfl, rfl⟩ (hholds hpoint rfl) rfl (fun _ => ?_)
        fun _ => .inl rfl
      rw [TrustCall.cancels, hcancel, hpoint]
      rfl
  | settle hcancel hpoint =>
      refine h.move hk rfl ⟨rfl, rfl, rfl, rfl⟩ (hholds hpoint rfl) rfl (fun _ => ?_)
        fun _ => .inl rfl
      rw [TrustCall.cancels, hcancel, hpoint]
      rfl

theorem checkMove {i : Nat} {check : Check} (h : s.Tracked) (hcheck : s.checks[i]? = some check)
    (hmove : CheckMove s i check s') : s'.Tracked := by
  obtain ⟨hcalls, hlock, hrunning, hlatest⟩ := hmove.calls
  obtain ⟨point, hchecks⟩ := hmove.checks
  have hold {j : Nat} {after : Check} (hafter : s'.checks[j]? = some after)
      (hlive : after.point.live = true) : ∃ before, s.checks[j]? = some before ∧
        before.point.live = true ∧ before.aborted = after.aborted := by
    rw [hchecks] at hafter
    rcases SingleOwner.getElem?_set_cases hafter with ⟨rfl, rfl⟩ | ⟨-, hafter⟩
    · exact ⟨check, hcheck, hmove.live, rfl⟩
    · exact ⟨after, hafter, hlive, rfl⟩
  refine ⟨?_, ?_, ?_, ?_, ?_, ?_⟩
  · intro j after hafter hlive
    obtain ⟨before, hbefore, hlive, -⟩ := hold hafter hlive
    rw [hrunning, hcalls]
    exact h.live j before hbefore hlive
  · intro j after hafter hlive haborted
    obtain ⟨before, hbefore, hlive, hsame⟩ := hold hafter hlive
    rw [hcalls]
    exact h.aborted j before hbefore hlive (hsame ▸ haborted)
  · rw [hrunning, hlatest]
    exact h.running
  · rw [hcalls, hlatest]
    exact h.held
  · rw [hlatest, hchecks, List.length_set]
    exact h.newest
  · rw [hcalls, hlatest, hrunning, hlock]
    exact h.cancelling

end Trust.Tracked

/-! ## After a cancel -/

/-- A cancel that has taken the handle leaves no earlier start under way, and no live check of
one but the check it awaits. -/
structure Trust.Ceased (s : Trust) : Prop where
  before : ∀ (k : Nat) (call : TrustCall), s.calls[k]? = some call → call.kind.starts = false →
    call.point ≠ .invoked →
    ∀ j < k, ∀ other, s.calls[j]? = some other → other.kind.starts = true → other.point.over = true
  live : ∀ (k : Nat) (call : TrustCall), s.calls[k]? = some call → call.kind.starts = false →
    call.point ≠ .invoked → ∀ (i : Nat) (check : Check), s.checks[i]? = some check →
      check.call < k → check.point.live = true → call.point = .joining i

namespace Trust.Ceased

variable {s s' : Trust} {k : Nat} {call : TrustCall} {answer : TrustCallAnswer}

/-- No step is made by a call that has returned. -/
theorem not_over (hmove : TrustCallMove s k call answer s') : call.point.over = false := by
  cases hmove with
  | vacant hpoint | take hpoint | joined hpoint => rw [hpoint]; rfl
  | bind _ hpoint | giveUp _ hpoint | announce _ hpoint | empty _ hpoint | spawn _ hpoint
  | record _ hpoint | close _ hpoint | settle _ hpoint => rw [hpoint]; rfl

/-- What a step of a call does to the checks: where they stand is as before, and a check that is
new belongs to a start that has not returned. -/
theorem checks_before (hmove : TrustCallMove s k call answer s') {i : Nat} {check : Check}
    (hcheck : s'.checks[i]? = some check) :
    (∃ before, s.checks[i]? = some before ∧ before.point = check.point ∧
      before.call = check.call) ∨ check.call = k ∧ call.kind.starts = true := by
  cases hmove with
  | take =>
      obtain ⟨before, aborted, hbefore, rfl, -⟩ := getElem?_abort hcheck
      exact .inl ⟨before, hbefore, rfl, rfl⟩
  | spawn hstarts hpoint =>
      rcases SingleOwner.getElem?_append_cases hcheck with ⟨-, rfl⟩ | hcheck
      · exact .inr ⟨rfl, hstarts⟩
      · exact .inl ⟨check, hcheck, rfl, rfl⟩
  | _ => exact .inl ⟨check, hcheck, rfl, rfl⟩

/-- The first step of a cancel: earlier starts have returned, and what is live is in the handle. -/
theorem begin_cancel (hlocked : s.Locked) (htracked : s.Tracked)
    (hmove : TrustCallMove s k call answer s') (hpoint : call.point = .invoked)
    (hturn : s.CancelInTurn k) {i : Nat} {check : Check} (hcheck : s.checks[i]? = some check)
    (hlive : check.point.live = true) :
    s'.calls = s.calls.set k { call with point := .joining i } := by
  cases hmove with
  | vacant _ hlock hrunning =>
      have hi := htracked.live_running hlocked hlock hturn.2 hcheck hlive
      rw [hrunning] at hi
      cases hi
  | take _ hlock hrunning =>
      have hi := htracked.live_running hlocked hlock hturn.2 hcheck hlive
      cases hrunning.symm.trans hi
      rfl
  | joined hpoint' | bind _ hpoint' | giveUp _ hpoint' | announce _ hpoint' | empty _ hpoint'
  | spawn _ hpoint' | record _ hpoint' | close _ hpoint' | settle _ hpoint' =>
      cases hpoint.symm.trans hpoint'

/-- A call goes on from the check it awaits when that is over. -/
theorem awaits {i : Nat} {check : Check} (hmove : TrustCallMove s k call answer s')
    (hcheck : s.checks[i]? = some check) (hlive : check.point.live = true)
    (h : call.point = .joining i) : False := by
  cases hmove with
  | joined hpoint hcheck' hdead =>
      cases h.symm.trans hpoint
      cases hcheck.symm.trans hcheck'
      rw [hlive] at hdead
      cases hdead
  | vacant hpoint | take hpoint => cases h.symm.trans hpoint
  | bind _ hpoint | giveUp _ hpoint | announce _ hpoint | empty _ hpoint | spawn _ hpoint
  | record _ hpoint | close _ hpoint | settle _ hpoint => cases h.symm.trans hpoint

theorem callMove (h : s.Ceased) (hlocked : s.Locked) (htracked : s.Tracked)
    (hk : s.calls[k]? = some call) (hturn : s.CallInTurn k call.kind answer call.point)
    (hmove : TrustCallMove s k call answer s') : s'.Ceased := by
  obtain ⟨point, hcalls⟩ := hmove.calls
  have hcancelTurn (hcancel : call.kind.starts = false) (hpoint : call.point = .invoked) :
      s.CancelInTurn k := (hpoint ▸ hturn).cancel hcancel
  have hover : call.point.over = false := not_over hmove
  -- an earlier start has returned, whichever cancel looks at it
  have hbefore : ∀ (c : Nat) (cancel : TrustCall), s'.calls[c]? = some cancel →
      cancel.kind.starts = false → cancel.point ≠ .invoked → ∀ j < c, ∀ other,
        s.calls[j]? = some other → other.kind.starts = true → other.point.over = true := by
    intro c cancel hc hcancel hpoint j hj other hother hstarts
    rw [hcalls] at hc
    rcases SingleOwner.getElem?_set_cases hc with ⟨rfl, rfl⟩ | ⟨-, hc⟩
    · by_cases hinvoked : call.point = .invoked
      · refine (hcancelTurn hcancel hinvoked).1 other ?_ hstarts
        exact List.mem_of_getElem? (i := j) (by rw [List.getElem?_take_of_lt hj]; exact hother)
      · exact h.before c call hk hcancel hinvoked j hj other hother hstarts
    · exact h.before c cancel hc hcancel hpoint j hj other hother hstarts
  refine ⟨?_, ?_⟩
  · intro c cancel hc hcancel hpoint j hj other hother hstarts
    rw [hcalls] at hother
    rcases SingleOwner.getElem?_set_cases hother with ⟨rfl, rfl⟩ | ⟨-, hother⟩
    · have hreturned := hbefore c cancel hc hcancel hpoint j hj call hk hstarts
      rw [hover] at hreturned
      cases hreturned
    · exact hbefore c cancel hc hcancel hpoint j hj other hother hstarts
  · intro c cancel hc hcancel hpoint i check hcheck hcall hlive
    rcases checks_before hmove hcheck with ⟨before, hcheck, hsame, hsame'⟩ | ⟨rfl, hstarts⟩
    · rw [hcalls] at hc
      rcases SingleOwner.getElem?_set_cases hc with ⟨rfl, rfl⟩ | ⟨-, hc⟩
      · by_cases hinvoked : call.point = .invoked
        · have hset := begin_cancel hlocked htracked hmove hinvoked
            (hcancelTurn hcancel hinvoked) hcheck (hsame ▸ hlive)
          have hlt : c < s.calls.length := (List.getElem?_eq_some_iff.mp hk).1
          have heq : some ({ call with point := point } : TrustCall) =
              some { call with point := .joining i } := by
            rw [← List.getElem?_set_self hlt, ← hcalls, hset, List.getElem?_set_self hlt]
          exact congrArg TrustCall.point (Option.some.inj heq)
        · have hjoining := h.live c call hk hcancel hinvoked i before hcheck (hsame' ▸ hcall)
            (hsame ▸ hlive)
          exact (awaits hmove hcheck (hsame ▸ hlive) hjoining).elim
      · exact h.live c cancel hc hcancel hpoint i before hcheck (hsame' ▸ hcall) (hsame ▸ hlive)
    · have hreturned := hbefore c cancel hc hcancel hpoint check.call hcall call hk hstarts
      rw [hover] at hreturned
      cases hreturned

theorem checkMove {i : Nat} {check : Check} (h : s.Ceased) (hcheck : s.checks[i]? = some check)
    (hmove : CheckMove s i check s') : s'.Ceased := by
  obtain ⟨point, hchecks⟩ := hmove.checks
  refine ⟨hmove.calls.1 ▸ h.before, ?_⟩
  intro c cancel hc hcancel hpoint j after hafter hcall hlive
  rw [hmove.calls.1] at hc
  rw [hchecks] at hafter
  rcases SingleOwner.getElem?_set_cases hafter with ⟨rfl, rfl⟩ | ⟨-, hafter⟩
  · exact h.live c cancel hc hcancel hpoint j check hcheck hcall hmove.live
  · exact h.live c cancel hc hcancel hpoint j after hafter hcall hlive

end Trust.Ceased

end SippinSoda
