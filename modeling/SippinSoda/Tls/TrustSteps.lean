import SippinSoda.Tls.TrustCheck
import SippinSoda.Lib.Owner

/-!
# What the steps of a trust check do

One inversion lemma for the calls and one for the check tasks; what is proved about runs is
proved by cases on them.
-/

namespace SippinSoda

/-- Is it a call of `start`? -/
def TrustCallKind.starts : TrustCallKind → Bool
  | .start _ _ _ => true
  | .cancel => false

/-- `latest` after a call of that kind has taken the handle. -/
def TrustCallKind.latest (kind : TrustCallKind) (latest : Option Nat) : Option Nat :=
  if kind.starts then latest else none

theorem TrustCallKind.latest_of_starts {kind : TrustCallKind} (h : kind.starts = true)
    (latest : Option Nat) : kind.latest latest = latest :=
  if_pos h

theorem TrustCallKind.latest_of_cancel {kind : TrustCallKind} (h : kind.starts = false)
    (latest : Option Nat) : kind.latest latest = none :=
  if_neg (by simp [h])

theorem TrustCallKind.latest_eq_some {kind : TrustCallKind} {latest : Option Nat} {i : Nat}
    (h : kind.latest latest = some i) : latest = some i := by
  unfold TrustCallKind.latest at h
  split at h
  · exact h
  · cases h

/-- What a step of call `k` can do. -/
inductive TrustCallMove (s : Trust) (k : Nat) (call : TrustCall) : TrustCallAnswer → Trust → Prop
  /-- There was no handle to take. -/
  | vacant : call.point = .invoked → s.lock = none → s.running = none →
      TrustCallMove s k call .go
        ({ s with latest := call.kind.latest s.latest }.moveTo k call (.cleared none))
  | take {i} : call.point = .invoked → s.lock = none → s.running = some i →
      TrustCallMove s k call .go
        (({ s with running := none, lock := some k, latest := call.kind.latest s.latest }.abort
          i).moveTo k call (.joining i))
  | joined {i check} : call.point = .joining i → s.checks[i]? = some check →
      check.point.live = false →
      TrustCallMove s k call .go ({ s with lock := none }.moveTo k call (.cleared (some i)))
  -- `start`
  | bind {taken port} : call.kind.starts = true → call.point = .cleared taken →
      TrustCallMove s k call (.bound port) (s.moveTo k call (.bound port))
  | giveUp {taken answer message} : call.kind.starts = true → call.point = .cleared taken →
      answer = .notBound ∨ answer = .noAddress →
      TrustCallMove s k call answer (s.moveTo k call (.returned (.error message)))
  | announce {port waiting} : call.kind.starts = true → call.point = .bound port →
      waiting.state = .waiting →
      TrustCallMove s k call .go ({ s with status := waiting }.moveTo k call (.announced waiting))
  | empty {waiting} : call.kind.starts = true → call.point = .announced waiting →
      TrustCallMove s k call .go ({ s with gate := none }.moveTo k call (.emptied waiting))
  | spawn {waiting leaf client} : call.kind.starts = true → call.point = .emptied waiting →
      TrustCallMove s k call .go ({ s with
        checks := s.checks ++ [Check.mk k leaf client waiting false .running]
        latest := some s.checks.length }.moveTo k call (.spawned s.checks.length waiting))
  | record {i waiting} : call.kind.starts = true → call.point = .spawned i waiting →
      s.lock = none →
      TrustCallMove s k call .go
        ({ s with running := some i }.moveTo k call (.returned (.ok waiting)))
  -- `cancel`
  | close {taken} : call.kind.starts = false → call.point = .cleared taken →
      TrustCallMove s k call .go ({ s with gate := none }.moveTo k call .closing)
  | settle : call.kind.starts = false → call.point = .closing →
      TrustCallMove s k call .go ({ s with status := .idle }.moveTo k call (.returned (.ok .idle)))

theorem Trust.cancelRunning_move {s s' : Trust} {k : Nat} {call : TrustCall}
    (h : s.cancelRunning k call = some s') : TrustCallMove s k call .go s' := by
  unfold Trust.cancelRunning at h
  split at h
  -- invoked
  next hpoint =>
    split at h
    next hlock =>
      have hkind : s' = { s.takeHandle k call with
          latest := call.kind.latest (s.takeHandle k call).latest } := by
        cases hkind : call.kind with
        | start leaf client validFor =>
            rw [hkind] at h
            cases h
            rfl
        | cancel =>
            rw [hkind] at h
            cases h
            rfl
      subst hkind
      unfold Trust.takeHandle
      cases hrunning : s.running with
      | none => exact .vacant hpoint hlock hrunning
      | some i => exact .take hpoint hlock hrunning
    next => cases h
  -- joining
  next i hpoint =>
    split at h
    next hlive =>
      cases h
      cases hcheck : s.checks[i]? with
      | none =>
          rw [hcheck] at hlive
          cases hlive
      | some check =>
          rw [hcheck] at hlive
          exact .joined hpoint hcheck (by simpa using hlive)
    next => cases h
  next => cases h

theorem Trust.startStep_move {s s' : Trust} {k : Nat} {call : TrustCall} {leaf : IssuedLeaf}
    {client : TlsClientIdentity} {validFor : Nat} {answer : TrustCallAnswer}
    (hstarts : call.kind.starts = true)
    (h : s.startStep k call leaf client validFor answer = some s') :
    TrustCallMove s k call answer s' := by
  cases answer with
  | bound port =>
      simp only [Trust.startStep] at h
      split at h <;> cases h
      next hpoint => exact .bind hstarts hpoint
  | notBound =>
      simp only [Trust.startStep] at h
      split at h <;> cases h
      next hpoint => exact .giveUp hstarts hpoint (.inl rfl)
  | noAddress =>
      simp only [Trust.startStep] at h
      split at h <;> cases h
      next hpoint => exact .giveUp hstarts hpoint (.inr rfl)
  | go =>
      simp only [Trust.startStep] at h
      split at h
      next hpoint =>
        cases h
        exact .announce hstarts hpoint rfl
      next hpoint =>
        cases h
        exact .empty hstarts hpoint
      next hpoint =>
        cases h
        exact .spawn hstarts hpoint
      next hpoint =>
        split at h <;> cases h
        next hlock => exact .record hstarts hpoint hlock
      next => cases h

theorem Trust.cancelStep_move {s s' : Trust} {k : Nat} {call : TrustCall}
    (hcancel : call.kind.starts = false) (h : s.cancelStep k call = some s') :
    TrustCallMove s k call .go s' := by
  unfold Trust.cancelStep at h
  split at h <;> cases h
  next hpoint => exact .close hcancel hpoint
  next hpoint => exact .settle hcancel hpoint

/-- **A step of a call** is one of those. -/
theorem Trust.callStep_move {s s' : Trust} {k : Nat} {call : TrustCall} {answer : TrustCallAnswer}
    (h : s.callStep k call answer = some s') : TrustCallMove s k call answer s' := by
  unfold Trust.callStep at h
  split at h
  case h_3 =>
    split at h
    next hkind => exact Trust.startStep_move (by rw [hkind]; rfl) h
    next hkind =>
      split at h
      next hgo => exact hgo ▸ Trust.cancelStep_move (by rw [hkind]; rfl) h
      next => cases h
  all_goals
    split at h
    next hgo => exact hgo ▸ Trust.cancelRunning_move h
    next => cases h

/-- What a step of check task `i` can do. -/
inductive CheckMove (s : Trust) (i : Nat) (check : Check) : Trust → Prop
  | decide {visit} : check.point = .running →
      CheckMove s i check (s.setCheck i check (.decided (runCheck check.leaf check.client visit)))
  | cutOff : check.point = .running → check.aborted = true →
      CheckMove s i check (s.setCheck i check .cutOff)
  | openGate {gate} : check.point = .decided (.ok gate) →
      CheckMove s i check ({ s with gate := some gate }.setCheck i check (.reporting gate))
  | fail {failure} : check.point = .decided (.error failure) →
      CheckMove s i check ({ s with status := failure.status check.client }.setCheck i check
        (.ended none (failure.status check.client)))
  | report {gate status} : check.point = .reporting gate →
      CheckMove s i check ({ s with status := status }.setCheck i check
        (.ended (some gate) status))

/-- **A step of a check task** is one of those. -/
theorem Trust.checkStep_move {s s' : Trust} {i : Nat} {check : Check} {answer : CheckAnswer}
    (h : s.checkStep i check answer = some s') : CheckMove s i check s' := by
  unfold Trust.checkStep at h
  split at h
  next hpoint =>
    cases h
    exact .decide hpoint
  next hpoint =>
    split at h <;> cases h
    next haborted => exact .cutOff hpoint haborted
  next hpoint =>
    cases h
    exact .openGate hpoint
  next hpoint =>
    cases h
    exact .fail hpoint
  next hpoint =>
    cases h
    exact .report hpoint
  next => cases h

/-- A task that makes a step was live. -/
theorem CheckMove.live {s s' : Trust} {i : Nat} {check : Check} (h : CheckMove s i check s') :
    check.point.live = true := by
  cases h with
  | decide hpoint => rw [hpoint]; rfl
  | cutOff hpoint => rw [hpoint]; rfl
  | openGate hpoint => rw [hpoint]; rfl
  | fail hpoint => rw [hpoint]; rfl
  | report hpoint => rw [hpoint]; rfl

/-- A task that is over makes no step. -/
theorem Trust.checkStep_over {s : Trust} {i : Nat} {check : Check} {answer : CheckAnswer}
    (h : check.point.live = false) : s.checkStep i check answer = none := by
  cases hstep : s.checkStep i check answer with
  | none => rfl
  | some s' =>
      rw [(Trust.checkStep_move hstep).live] at h
      cases h

/-! ## Frames -/

theorem TrustCallMove.preparations {s s' : Trust} {k : Nat} {call : TrustCall}
    {answer : TrustCallAnswer} (h : TrustCallMove s k call answer s') : s'.preparations = s.preparations := by
  cases h <;> rfl

theorem CheckMove.preparations {s s' : Trust} {i : Nat} {check : Check}
    (h : CheckMove s i check s') : s'.preparations = s.preparations := by
  cases h <;> rfl

/-- A step of a task changes no call and no handle. -/
theorem CheckMove.calls {s s' : Trust} {i : Nat} {check : Check} (h : CheckMove s i check s') :
    s'.calls = s.calls ∧ s'.lock = s.lock ∧ s'.running = s.running ∧ s'.latest = s.latest := by
  cases h <;> exact ⟨rfl, rfl, rfl, rfl⟩

/-- A step of a task changes where it stands. -/
theorem CheckMove.checks {s s' : Trust} {i : Nat} {check : Check} (h : CheckMove s i check s') :
    ∃ point, s'.checks = s.checks.set i { check with point := point } := by
  cases h <;> exact ⟨_, rfl⟩

/-- A check among those of which one was aborted. -/
theorem getElem?_abort {checks : List Check} {i j : Nat} {check : Check}
    (h : (checks.modify i fun check => { check with aborted := true })[j]? = some check) :
    ∃ before aborted, checks[j]? = some before ∧ check = { before with aborted := aborted } ∧
      (aborted = true → before.aborted = true ∨ j = i) := by
  rw [List.getElem?_modify] at h
  obtain ⟨before, hbefore, rfl⟩ := Option.map_eq_some_iff.mp h
  by_cases heq : i = j
  · exact ⟨before, true, hbefore, if_pos heq, fun _ => .inr heq.symm⟩
  · exact ⟨before, before.aborted, hbefore, if_neg heq, .inl⟩

/-- A step of a call changes where it stands. -/
theorem TrustCallMove.calls {s s' : Trust} {k : Nat} {call : TrustCall} {answer : TrustCallAnswer}
    (h : TrustCallMove s k call answer s') :
    ∃ point, s'.calls = s.calls.set k { call with point := point } := by
  cases h <;> exact ⟨_, rfl⟩

/-- What a step can do to the calls and the checks. -/
inductive TrustMove (s : Trust) : TrustEvent → Trust → Prop
  | invoke {e call} : (call.point = .invoked ∨
      call.kind.starts = true ∧ ∃ message, call.point = .returned (.error message)) →
      TrustMove s e { s with calls := s.calls ++ [call] }
  | call {k call answer s'} : s.calls[k]? = some call → TrustCallMove s k call answer s' →
      TrustMove s (.call k answer) s'
  | check {i check answer s'} : s.checks[i]? = some check → CheckMove s i check s' →
      TrustMove s (.check i answer) s'
  | aside {e credential preparations clock} : TrustMove s e
      { s with credential := credential, preparations := preparations, clock := clock }

theorem Trust.step_move {s s' : Trust} {e : TrustEvent} (h : s.step e = some s') :
    TrustMove s e s' := by
  cases e with
  | start leaf client validFor =>
      cases h
      refine .invoke ?_
      by_cases hvalid : validCheckDuration validFor = true
      · exact .inl (if_pos hvalid)
      · exact .inr ⟨rfl, _, if_neg hvalid⟩
  | cancel =>
      cases h
      exact .invoke (.inl rfl)
  | call k answer =>
      obtain ⟨call, hcall, h⟩ := Option.bind_eq_some_iff.mp h
      exact .call hcall (Trust.callStep_move h)
  | check i answer =>
      obtain ⟨check, hcheck, h⟩ := Option.bind_eq_some_iff.mp h
      exact .check hcheck (Trust.checkStep_move h)
  | preparation k answer =>
      obtain ⟨p, -, h⟩ := Option.bind_eq_some_iff.mp h
      obtain ⟨point, -, h⟩ := Option.bind_eq_some_iff.mp h
      cases h
      exact .aside
  | _ =>
      cases h
      exact .aside

end SippinSoda
