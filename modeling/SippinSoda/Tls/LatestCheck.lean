import SippinSoda.Tls.Turns

/-!
# Only the latest trust check grants readiness

In a run whose calls take their turns, one task at most can write, and between calls status and
gate are those of the check started last.

* **Shows** — status and gate are what the latest check shows;
* **Faithful** — the same, call by call and check by check;
* **OnlyLatest** — what follows in every state reached.
-/

namespace SippinSoda

/-! ## What status and gate show -/

/-- The gate that a check has opened, or is about to. -/
def CheckPoint.opened : CheckPoint → Option TlsInspectionGate
  | .decided (.ok gate) | .reporting gate => some gate
  | .ended gate _ => gate
  | _ => none

/-- Status and gate while the check stands there. -/
def Check.shows (check : Check) : TlsTrustCheckStatus × Option TlsInspectionGate :=
  match check.point with
  | .running | .decided _ | .cutOff => (check.waiting, none)
  | .reporting gate => (check.waiting, some gate)
  | .ended gate status => (status, gate)

/-- A start that has taken the handle of that check, and may have cut it off. -/
def TrustCall.tookOver (call : TrustCall) (i : Nat) : Bool :=
  call.kind.starts &&
    match call.point with
    | .joining j => j = i
    | .cleared taken => taken = some i
    | .bound _ => true
    | _ => false

/-- The call is between two writes of status and gate. -/
def TrustCall.writing (call : TrustCall) : Bool :=
  call.cancels ||
    match call.point with
    | .announced _ | .emptied _ => call.kind.starts
    | _ => false

/-- Status and gate are those of the check started last. -/
def Trust.Shows (s : Trust) : Prop :=
  match s.latest with
  | none => s.status = .idle ∧ s.gate = none
  | some i => ∃ check, s.checks[i]? = some check ∧ (s.status, s.gate) = check.shows ∧
      (check.point = .cutOff → ∃ call ∈ s.calls, call.tookOver i = true)

/-- Status and gate, call by call and check by check. -/
structure Trust.Faithful (s : Trust) : Prop where
  announced : ∀ call ∈ s.calls, call.kind.starts = true → ∀ waiting,
    call.point = .announced waiting ∨ call.point = .emptied waiting →
      s.status = waiting ∧ waiting.state = .waiting
  emptied : ∀ call ∈ s.calls, call.kind.starts = true → ∀ waiting,
    call.point = .emptied waiting → s.gate = none
  closing : ∀ call ∈ s.calls, call.kind.starts = false → call.point = .closing → s.gate = none
  started : ∀ check ∈ s.checks, check.waiting.state = .waiting ∧
    ∃ call, s.calls[check.call]? = some call ∧ call.kind.starts = true ∧
      ((∃ i, call.point = .spawned i check.waiting) ∨
        call.point = .returned (.ok check.waiting))
  verified : ∀ check ∈ s.checks, ∀ gate, check.point.opened = some gate →
    runCheck check.leaf check.client (.client (.ok ()) true) = .ok gate
  shown : (∀ call ∈ s.calls, call.writing = false) → s.Shows

/-- A gate is opened only when the handshake has succeeded and its confirmation was written. -/
theorem runCheck_ok {leaf : IssuedLeaf} {client : TlsClientIdentity} {visit : Visit}
    {gate : TlsInspectionGate} (h : runCheck leaf client visit = .ok gate) :
    visit = .client (.ok ()) true := by
  cases visit with
  | nobody => cases h
  | acceptFailed => cases h
  | client handshake written =>
      cases handshake with
      | error error => cases error <;> cases h
      | ok =>
          cases written with
          | false => cases h
          | true => rfl

namespace Trust.Faithful

variable {s s' : Trust} {k : Nat} {call : TrustCall} {answer : TrustCallAnswer}

/-- What is shown stays so while nothing is written. -/
theorem shows_keep (h : s.Shows)
    (hsame : s'.status = s.status ∧ s'.gate = s.gate ∧ s'.latest = s.latest)
    (hchecks : ∀ (i : Nat) (check : Check), s.checks[i]? = some check →
      ∃ aborted, s'.checks[i]? = some { check with aborted := aborted })
    (htook : ∀ i, (∃ call ∈ s.calls, call.tookOver i = true) →
      (∃ call ∈ s'.calls, call.tookOver i = true) ∨
        ∀ check ∈ s.checks[i]?, check.point ≠ .cutOff) : s'.Shows := by
  obtain ⟨hstatus, hgate, hlatest⟩ := hsame
  unfold Trust.Shows at h ⊢
  rw [hstatus, hgate, hlatest]
  split at h
  next => exact h
  next i _ =>
    obtain ⟨check, hcheck, hshows, hcut⟩ := h
    obtain ⟨aborted, hafter⟩ := hchecks i check hcheck
    refine ⟨_, hafter, hshows, fun hpoint => ?_⟩
    rcases htook i (hcut hpoint) with htook | hnot
    · exact htook
    · exact absurd hpoint (hnot check hcheck)

/-- Nobody was writing before a step that was no write. -/
theorem quiet_before (hcall : call.writing = false) {point : TrustCallPoint}
    (hk : s.calls[k]? = some call)
    (h : ∀ other ∈ s.calls.set k { call with point := point }, other.writing = false) :
    ∀ other ∈ s.calls, other.writing = false := by
  intro other hother
  obtain ⟨j, hj⟩ := List.mem_iff_getElem?.mp hother
  by_cases hjk : j = k
  · obtain rfl : other = call := Option.some.inj (hj.symm.trans (hjk ▸ hk))
    exact hcall
  · refine h other (List.mem_of_getElem? (i := j) ?_)
    rw [List.getElem?_set_ne (Ne.symm hjk)]
    exact hj

/-- The writer is one of the calls. -/
theorem not_quiet (hk : s.calls[k]? = some call) {point : TrustCallPoint}
    (hwriting : ({ call with point := point } : TrustCall).writing = true)
    (h : ∀ other ∈ s.calls.set k { call with point := point }, other.writing = false) : False := by
  have hquiet := h _ (List.mem_set (List.getElem?_eq_some_iff.mp hk).1 _)
  rw [hwriting] at hquiet
  cases hquiet

/-- What the calls show. -/
theorem shown_callMove (h : s.Faithful) (htracked : s.Tracked) (hk : s.calls[k]? = some call)
    (hturn : s.CallInTurn k call.kind answer call.point)
    (hmove : TrustCallMove s k call answer s')
    (hquiet : ∀ other ∈ s'.calls, other.writing = false) : s'.Shows := by
  have hcall : call ∈ s.calls := List.mem_of_getElem? hk
  -- a start goes on, and writes nothing
  have keep {point : TrustCallPoint} (hstarts : call.kind.starts = true)
      (hwas : ∀ waiting, call.point ≠ .announced waiting ∧ call.point ≠ .emptied waiting)
      (hcalls : s'.calls = s.calls.set k { call with point := point })
      (hsame : s'.status = s.status ∧ s'.gate = s.gate ∧ s'.latest = s.latest)
      (hchecks : ∀ (i : Nat) (check : Check), s.checks[i]? = some check →
        ∃ aborted, s'.checks[i]? = some { check with aborted := aborted })
      (htook : ∀ i, call.tookOver i = true →
        ({ call with point := point } : TrustCall).tookOver i = true ∨
          ∀ check ∈ s.checks[i]?, check.point ≠ .cutOff) : s'.Shows := by
    have hcallQuiet : call.writing = false := by
      unfold TrustCall.writing TrustCall.cancels
      rw [hstarts]
      split
      next waiting hpoint => exact absurd hpoint (hwas waiting).1
      next waiting hpoint => exact absurd hpoint (hwas waiting).2
      next => rfl
    refine shows_keep (h.shown (quiet_before hcallQuiet hk (hcalls ▸ hquiet))) hsame hchecks
      fun i hex => ?_
    rw [hcalls]
    by_cases hcall : call.tookOver i = true
    · exact (htook i hcall).imp_left fun hafter =>
        ⟨_, List.mem_set (List.getElem?_eq_some_iff.mp hk).1 _, hafter⟩
    · exact .inl (exists_mem_set hk (fun hwas => absurd hwas hcall) hex)
  have kept : ∀ (i : Nat) (check : Check), s.checks[i]? = some check →
      ∃ aborted, s.checks[i]? = some { check with aborted := aborted } :=
    fun i check hcheck => ⟨check.aborted, hcheck⟩
  cases hmove with
  | vacant hpoint =>
      by_cases hstarts : call.kind.starts = true
      · refine keep hstarts (by simp [hpoint]) rfl
          ⟨rfl, rfl, TrustCallKind.latest_of_starts hstarts _⟩ kept fun i htook => ?_
        simp [TrustCall.tookOver, hpoint] at htook
      · refine (not_quiet hk ?_ hquiet).elim
        simp [TrustCall.writing, TrustCall.cancels, hstarts, TrustCallPoint.idle]
  | @take i hpoint hlock hrunning =>
      by_cases hstarts : call.kind.starts = true
      · refine keep hstarts (by simp [hpoint]) rfl
          ⟨rfl, rfl, TrustCallKind.latest_of_starts hstarts _⟩ ?_ fun j htook => ?_
        · intro j check hcheck
          show ∃ aborted, (s.checks.modify _ fun check => { check with aborted := true })[j]? =
            some { check with aborted := aborted }
          rw [List.getElem?_modify, hcheck]
          by_cases heq : i = j
          · exact ⟨true, congrArg some (if_pos heq)⟩
          · exact ⟨check.aborted, congrArg some (if_neg heq)⟩
        · simp [TrustCall.tookOver, hpoint] at htook
      · refine (not_quiet hk ?_ hquiet).elim
        simp [TrustCall.writing, TrustCall.cancels, hstarts, TrustCallPoint.idle]
  | joined hpoint =>
      by_cases hstarts : call.kind.starts = true
      · refine keep hstarts (by simp [hpoint]) rfl ⟨rfl, rfl, rfl⟩ kept fun j htook => .inl ?_
        simpa [TrustCall.tookOver, hpoint, hstarts] using htook
      · refine (not_quiet hk ?_ hquiet).elim
        simp [TrustCall.writing, TrustCall.cancels, hstarts, TrustCallPoint.idle]
  | bind hstarts hpoint =>
      refine keep hstarts (by simp [hpoint]) rfl ⟨rfl, rfl, rfl⟩ kept fun j _ => .inl ?_
      simp [TrustCall.tookOver, hstarts]
  | giveUp hstarts hpoint hanswer =>
      refine keep hstarts (by simp [hpoint]) rfl ⟨rfl, rfl, rfl⟩ kept fun j htook => .inr ?_
      rw [hpoint] at hturn
      refine hturn hanswer j ?_
      simpa [TrustCall.tookOver, hpoint, hstarts] using htook
  | announce hstarts | empty hstarts =>
      exact (not_quiet hk (by simp [TrustCall.writing, hstarts]) hquiet).elim
  | spawn hstarts hpoint =>
      obtain ⟨hstatus, -⟩ := h.announced call hcall hstarts _ (.inr hpoint)
      have hgate := h.emptied call hcall hstarts _ hpoint
      refine ⟨_, List.getElem?_concat_length, ?_, fun hpoint => ?_⟩
      · exact congrArg₂ Prod.mk hstatus hgate
      · cases hpoint
  | record hstarts hpoint =>
      refine keep hstarts (by simp [hpoint]) rfl ⟨rfl, rfl, rfl⟩ kept fun j htook => ?_
      simp [TrustCall.tookOver, hpoint] at htook
  | close hcancel =>
      refine (not_quiet hk ?_ hquiet).elim
      simp [TrustCall.writing, TrustCall.cancels, hcancel, TrustCallPoint.idle]
  | settle hcancel hpoint =>
      have hlatest : s.latest = none := by
        refine (htracked.cancelling call hcall ?_).1
        rw [TrustCall.cancels, hcancel, hpoint]
        rfl
      unfold Trust.Shows
      split
      next => exact ⟨rfl, h.closing call hcall hcancel hpoint⟩
      next hsome => cases hlatest.symm.trans hsome

theorem busy_of_writing {waiting : TlsTrustCheckStatus} (hstarts : call.kind.starts = true)
    (hpoint : call.point = .announced waiting ∨ call.point = .emptied waiting) :
    call.busy = true := by
  rcases hpoint with hpoint | hpoint
  all_goals
    rw [TrustCall.busy, hpoint]
    exact hstarts

theorem announced_callMove (h : s.Faithful) (hlocked : s.Locked) (htracked : s.Tracked)
    (hk : s.calls[k]? = some call) (hmove : TrustCallMove s k call answer s') {other : TrustCall}
    (hother : other ∈ s'.calls) (hstarts : other.kind.starts = true) {waiting : TlsTrustCheckStatus}
    (hpoint : other.point = .announced waiting ∨ other.point = .emptied waiting) :
    s'.status = waiting ∧ waiting.state = .waiting := by
  obtain ⟨j, hj⟩ := List.mem_iff_getElem?.mp hother
  cases hmove with
  | announce hcall hwas hwaiting =>
      rcases SingleOwner.getElem?_set_cases hj with ⟨-, rfl⟩ | ⟨hne, hj⟩
      · rcases hpoint with hpoint | hpoint <;> cases hpoint
        exact ⟨rfl, hwaiting⟩
      · refine absurd (hlocked.eq_of_busy hj hk (busy_of_writing hstarts hpoint) ?_) hne
        rw [TrustCall.busy, hwas]
        exact hcall
  | empty hcall hwas =>
      rcases SingleOwner.getElem?_set_cases hj with ⟨-, rfl⟩ | ⟨-, hj⟩
      · rcases hpoint with hpoint | hpoint <;> cases hpoint
        exact h.announced call (List.mem_of_getElem? hk) hcall _ (.inl hwas)
      · exact h.announced other (List.mem_of_getElem? hj) hstarts waiting hpoint
  | settle hcancel hwas =>
      rcases SingleOwner.getElem?_set_cases hj with ⟨-, rfl⟩ | ⟨-, hj⟩
      · rcases hpoint with hpoint | hpoint <;> cases hpoint
      · have hquiet := htracked.not_cancelling (List.mem_of_getElem? hj) hstarts
          (by rcases hpoint with hpoint | hpoint <;> rw [hpoint] <;> rfl) (List.mem_of_getElem? hk)
        rw [TrustCall.cancels, hcancel, hwas] at hquiet
        cases hquiet
  | _ =>
      rcases SingleOwner.getElem?_set_cases hj with ⟨-, rfl⟩ | ⟨-, hj⟩
      · rcases hpoint with hpoint | hpoint <;> cases hpoint
      · exact h.announced other (List.mem_of_getElem? hj) hstarts waiting hpoint

theorem emptied_callMove (h : s.Faithful) (hmove : TrustCallMove s k call answer s')
    {other : TrustCall} (hother : other ∈ s'.calls) (hstarts : other.kind.starts = true)
    {waiting : TlsTrustCheckStatus}
    (hpoint : other.point = .emptied waiting) : s'.gate = none := by
  cases hmove with
  | empty => rfl
  | close => rfl
  | _ =>
      rcases List.mem_or_eq_of_mem_set hother with hother | rfl
      · exact h.emptied other hother hstarts waiting hpoint
      · cases hpoint

theorem closing_callMove (h : s.Faithful) (hmove : TrustCallMove s k call answer s')
    {other : TrustCall} (hother : other ∈ s'.calls) (hcancel : other.kind.starts = false)
    (hpoint : other.point = .closing) : s'.gate = none := by
  cases hmove with
  | empty => rfl
  | close => rfl
  | _ =>
      rcases List.mem_or_eq_of_mem_set hother with hother | rfl
      · exact h.closing other hother hcancel hpoint
      · cases hpoint

/-- The start of a check stays where it is, or returns what it has announced. -/
theorem started_before (hk : s.calls[k]? = some call) (hmove : TrustCallMove s k call answer s')
    {j : Nat} {waiting : TlsTrustCheckStatus}
    (h : ∃ other, s.calls[j]? = some other ∧ other.kind.starts = true ∧
      ((∃ i, other.point = .spawned i waiting) ∨ other.point = .returned (.ok waiting))) :
    ∃ other, s'.calls[j]? = some other ∧ other.kind.starts = true ∧
      ((∃ i, other.point = .spawned i waiting) ∨ other.point = .returned (.ok waiting)) := by
  obtain ⟨other, hj, hstarts, hpoint⟩ := h
  have hlt : k < s.calls.length := (List.getElem?_eq_some_iff.mp hk).1
  by_cases hjk : k = j
  · subst hjk
    cases hk.symm.trans hj
    cases hmove with
    | record hcall hwas =>
        refine ⟨_, List.getElem?_set_self hlt, hstarts, .inr ?_⟩
        rcases hpoint with ⟨i, hpoint⟩ | hpoint <;> cases hwas.symm.trans hpoint
        rfl
    | vacant hwas | take hwas | joined hwas | bind _ hwas | giveUp _ hwas | announce _ hwas
    | empty _ hwas | spawn _ hwas | close _ hwas | settle _ hwas =>
        rcases hpoint with ⟨i, hpoint⟩ | hpoint <;> cases hwas.symm.trans hpoint
  · obtain ⟨point, hcalls⟩ := hmove.calls
    exact ⟨other, by rw [hcalls, List.getElem?_set_ne hjk]; exact hj, hstarts, hpoint⟩

theorem callMove (h : s.Faithful) (hlocked : s.Locked) (htracked : s.Tracked)
    (hk : s.calls[k]? = some call) (hturn : s.CallInTurn k call.kind answer call.point)
    (hmove : TrustCallMove s k call answer s') : s'.Faithful where
  announced _ hother hstarts _ := h.announced_callMove hlocked htracked hk hmove hother hstarts
  emptied _ hother hstarts _ := h.emptied_callMove hmove hother hstarts
  closing _ := h.closing_callMove hmove
  started := by
    have hold (check : Check) (hcheck : check ∈ s.checks) :=
      (h.started check hcheck).imp_right (started_before hk hmove)
    intro check hcheck
    cases hmove with
    | take =>
        obtain ⟨i, hi⟩ := List.mem_iff_getElem?.mp hcheck
        obtain ⟨before, aborted, hbefore, rfl, -⟩ := getElem?_abort hi
        exact hold before (List.mem_of_getElem? hbefore)
    | spawn hstarts hpoint =>
        rcases List.mem_append.mp hcheck with hcheck | hcheck
        · exact hold check hcheck
        · rw [List.mem_singleton] at hcheck
          subst hcheck
          exact ⟨(h.announced call (List.mem_of_getElem? hk) hstarts _ (.inr hpoint)).2, _,
            List.getElem?_set_self (List.getElem?_eq_some_iff.mp hk).1, hstarts, .inl ⟨_, rfl⟩⟩
    | _ => exact hold check hcheck
  verified := by
    intro check hcheck
    cases hmove with
    | take =>
        obtain ⟨i, hi⟩ := List.mem_iff_getElem?.mp hcheck
        obtain ⟨before, aborted, hbefore, rfl, -⟩ := getElem?_abort hi
        exact h.verified before (List.mem_of_getElem? hbefore)
    | spawn =>
        rcases List.mem_append.mp hcheck with hcheck | hcheck
        · exact h.verified check hcheck
        · rw [List.mem_singleton] at hcheck
          subst hcheck
          exact nofun
    | _ => exact h.verified check hcheck
  shown := h.shown_callMove htracked hk hturn hmove

/-- No check is live while a start has announced its own. -/
theorem not_live_of_writing (hlocked : s.Locked) (htracked : s.Tracked) {i : Nat} {check : Check}
    (hcheck : s.checks[i]? = some check) (hlive : check.point.live = true) (hcall : call ∈ s.calls)
    (hstarts : call.kind.starts = true) {waiting : TlsTrustCheckStatus}
    (hpoint : call.point = .announced waiting ∨ call.point = .emptied waiting) : False := by
  have hbusy := busy_of_writing hstarts hpoint
  rcases htracked.live i check hcheck hlive with hrunning | ⟨other, hother, hholds⟩
  · cases (hlocked.vacant call hcall hbusy).symm.trans hrunning
  · obtain ⟨j, hj⟩ := List.mem_iff_getElem?.mp hcall
    obtain ⟨n, hn⟩ := List.mem_iff_getElem?.mp hother
    obtain rfl := hlocked.eq_of_busy hj hn hbusy (TrustCall.busy_of_holds hholds)
    cases hj.symm.trans hn
    unfold TrustCall.holds at hholds
    rcases hpoint with hpoint | hpoint
    all_goals
      rw [hpoint] at hholds
      cases hholds

/-- No check is live while a cancel is past the one it has awaited. -/
theorem not_live_of_closing (hlocked : s.Locked) (htracked : s.Tracked) {i : Nat} {check : Check}
    (hcheck : s.checks[i]? = some check) (hlive : check.point.live = true) (hcall : call ∈ s.calls)
    (hcancel : call.kind.starts = false) (hpoint : call.point = .closing) : False := by
  obtain ⟨-, hrunning, hlock, hearly⟩ := htracked.cancelling call hcall
    (by rw [TrustCall.cancels, hcancel, hpoint]; rfl)
  have hi := htracked.live_running hlocked (hlock (by simp [hpoint])) hearly hcheck hlive
  rw [hrunning] at hi
  cases hi

/-- While nobody else writes, a live check is the one started last. -/
theorem latest_of_live (htracked : s.Tracked) {i : Nat} {check : Check}
    (hcheck : s.checks[i]? = some check) (hlive : check.point.live = true)
    (hquiet : ∀ call ∈ s.calls, call.writing = false) : s.latest = some i := by
  rcases htracked.live i check hcheck hlive with hrunning | ⟨call, hcall, hholds⟩
  · exact htracked.running i hrunning
  · refine htracked.held call hcall ?_ i hholds
    rcases TrustCall.holds_cases hholds with hpoint | ⟨hstarts, -⟩
    · have hcancels := (Bool.or_eq_false_iff.mp (hquiet call hcall)).1
      simpa [TrustCall.cancels, hpoint, TrustCallPoint.idle] using hcancels
    · exact hstarts

/-- What a check shows it shows after its own step. -/
theorem shown_checkMove {i : Nat} {check : Check} (h : s.Faithful) (htracked : s.Tracked)
    (hcheck : s.checks[i]? = some check) (hmove : CheckMove s i check s')
    (hquiet : ∀ call ∈ s'.calls, call.writing = false) : s'.Shows := by
  rw [hmove.calls.1] at hquiet
  have hlatest := latest_of_live htracked hcheck hmove.live hquiet
  have hshown := h.shown hquiet
  unfold Trust.Shows at hshown ⊢
  rw [hmove.calls.2.2.2]
  rw [hlatest] at hshown ⊢
  obtain ⟨check', hcheck', hshows, hcut⟩ := hshown
  cases hcheck.symm.trans hcheck'
  have hlt : i < s.checks.length := (List.getElem?_eq_some_iff.mp hcheck).1
  cases hmove with
  | decide hpoint =>
      refine ⟨_, List.getElem?_set_self hlt, ?_, fun hpoint => ?_⟩
      · rw [Check.shows, hpoint] at hshows
        exact hshows
      · cases hpoint
  | cutOff hpoint haborted =>
      refine ⟨_, List.getElem?_set_self hlt, ?_, fun _ => ?_⟩
      · rw [Check.shows, hpoint] at hshows
        exact hshows
      · obtain ⟨call, hcall, hjoining⟩ :=
          htracked.aborted i check hcheck (by rw [hpoint]; rfl) haborted
        refine ⟨call, hcall, ?_⟩
        have hcancels := (Bool.or_eq_false_iff.mp (hquiet call hcall)).1
        rw [TrustCall.cancels, hjoining] at hcancels
        simpa [TrustCall.tookOver, hjoining, TrustCallPoint.idle] using hcancels
  | openGate hpoint =>
      refine ⟨_, List.getElem?_set_self hlt, ?_, fun hpoint => ?_⟩
      · rw [Check.shows, hpoint] at hshows
        exact congrArg₂ Prod.mk (Prod.mk.inj hshows).1 rfl
      · cases hpoint
  | fail hpoint =>
      refine ⟨_, List.getElem?_set_self hlt, ?_, fun hpoint => ?_⟩
      · rw [Check.shows, hpoint] at hshows
        exact congrArg₂ Prod.mk rfl (Prod.mk.inj hshows).2
      · cases hpoint
  | report hpoint =>
      refine ⟨_, List.getElem?_set_self hlt, ?_, fun hpoint => ?_⟩
      · rw [Check.shows, hpoint] at hshows
        exact congrArg₂ Prod.mk rfl (Prod.mk.inj hshows).2
      · cases hpoint

theorem verified_checkMove {i : Nat} {check after : Check} (h : s.Faithful)
    (hcheck : s.checks[i]? = some check) (hmove : CheckMove s i check s')
    (hafter : after ∈ s'.checks) {gate : TlsInspectionGate} (hgate : after.point.opened = some gate) :
    runCheck after.leaf after.client (.client (.ok ()) true) = .ok gate := by
  have hbefore := h.verified check (List.mem_of_getElem? hcheck) gate
  cases hmove with
  | @decide visit hpoint =>
      rcases List.mem_or_eq_of_mem_set hafter with hafter | rfl
      · exact h.verified after hafter gate hgate
      · cases hrun : runCheck check.leaf check.client visit with
        | error failure =>
            rw [hrun] at hgate
            cases hgate
        | ok opened =>
            rw [hrun] at hgate
            cases hgate
            cases runCheck_ok hrun
            exact hrun
  | cutOff | fail =>
      rcases List.mem_or_eq_of_mem_set hafter with hafter | rfl
      · exact h.verified after hafter gate hgate
      · cases hgate
  | openGate hpoint | report hpoint =>
      rcases List.mem_or_eq_of_mem_set hafter with hafter | rfl
      · exact h.verified after hafter gate hgate
      · rw [hpoint] at hbefore
        exact hbefore hgate

theorem checkMove {i : Nat} {check : Check} (h : s.Faithful) (hlocked : s.Locked)
    (htracked : s.Tracked) (hcheck : s.checks[i]? = some check) (hmove : CheckMove s i check s') :
    s'.Faithful where
  announced call hcall hstarts waiting hpoint := by
    rw [hmove.calls.1] at hcall
    exact (not_live_of_writing hlocked htracked hcheck hmove.live hcall hstarts hpoint).elim
  emptied call hcall hstarts waiting hpoint := by
    rw [hmove.calls.1] at hcall
    exact (not_live_of_writing hlocked htracked hcheck hmove.live hcall hstarts (.inr hpoint)).elim
  closing call hcall hcancel hpoint := by
    rw [hmove.calls.1] at hcall
    exact (not_live_of_closing hlocked htracked hcheck hmove.live hcall hcancel hpoint).elim
  started := by
    obtain ⟨point, hchecks⟩ := hmove.checks
    rw [hmove.calls.1, hchecks]
    intro after hafter
    rcases List.mem_or_eq_of_mem_set hafter with hafter | rfl
    · exact h.started after hafter
    · exact h.started check (List.mem_of_getElem? hcheck)
  verified _ hafter _ := h.verified_checkMove hcheck hmove hafter
  shown := h.shown_checkMove htracked hcheck hmove

end Trust.Faithful

/-! ## Runs -/

/-- What holds in every state of a run whose steps take their turns. -/
structure Trust.Ordered (s : Trust) : Prop where
  locked : s.Locked
  tracked : s.Tracked
  ceased : s.Ceased
  faithful : s.Faithful

theorem Trust.Ordered.default {credential : Option Credential} :
    (Trust.default credential).Ordered := by
  refine ⟨⟨?_, SingleOwner.nil, ?_⟩, ⟨?_, ?_, ?_, ?_, ?_, ?_⟩, ⟨?_, ?_⟩,
    ⟨?_, ?_, ?_, ?_, ?_, fun _ => ⟨rfl, rfl⟩⟩⟩
  all_goals simp [Trust.default]

namespace Trust.Ordered

variable {s s' : Trust} {call : TrustCall}

/-- A call that does not begin busy changes nothing. -/
theorem invoke (h : s.Ordered) (hcall : call.point = .invoked ∨
      call.kind.starts = true ∧ ∃ message, call.point = .returned (.error message)) :
    ({ s with calls := s.calls ++ [call] } : Trust).Ordered := by
  have hidle : call.busy = false ∧ call.holds = none ∧ call.cancels = false ∧
      call.point.early = true ∧ (∀ i, call.point ≠ .joining i) ∧
      ∀ waiting, call.point ≠ .announced waiting ∧ call.point ≠ .emptied waiting := by
    rcases hcall with hpoint | ⟨-, message, hpoint⟩ <;>
      simp [TrustCall.busy, TrustCall.holds, TrustCall.cancels, TrustCallPoint.idle,
        TrustCallPoint.early, hpoint]
  obtain ⟨hbusy, hholds, hcancels, hearly, hjoining, hwriting⟩ := hidle
  have hclosing : call.kind.starts = false → call.point = .invoked := by
    intro hcancel
    rcases hcall with hpoint | ⟨hstarts, -⟩
    · exact hpoint
    · rw [hcancel] at hstarts
      cases hstarts
  have hold {Q : TrustCall → Prop} (h : ∃ other ∈ s.calls, Q other) :
      ∃ other ∈ s.calls ++ [call], Q other := by
    obtain ⟨other, hother, hq⟩ := h
    exact ⟨other, List.mem_append_left _ hother, hq⟩
  have hcases {other : TrustCall} (hother : other ∈ s.calls ++ [call]) :
      other ∈ s.calls ∨ other = call := by
    simpa using hother
  refine ⟨⟨?_, ?_, ?_⟩, ⟨?_, ?_, h.tracked.running, ?_, h.tracked.newest, ?_⟩, ⟨?_, ?_⟩,
    ⟨?_, ?_, ?_, ?_, h.faithful.verified, ?_⟩⟩
  · intro k other i hother hpoint
    rcases SingleOwner.getElem?_append_cases hother with ⟨-, rfl⟩ | hother
    · exact absurd hpoint (hjoining i)
    · exact h.locked.lock k other i hother hpoint
  · refine h.locked.turn.append_one fun v hv => ?_
    rw [TrustCall.turn_eq_some, hbusy] at hv
    cases hv
  · intro other hother hother'
    rcases hcases hother with hother | rfl
    · exact h.locked.vacant other hother hother'
    · rw [hbusy] at hother'
      cases hother'
  · intro i check hcheck hlive
    exact (h.tracked.live i check hcheck hlive).imp_right hold
  · intro i check hcheck hlive haborted
    exact hold (h.tracked.aborted i check hcheck hlive haborted)
  · intro other hother hstarts i hi
    rcases hcases hother with hother | rfl
    · exact h.tracked.held other hother hstarts i hi
    · rw [hholds] at hi
      cases hi
  · intro other hother hother'
    rcases hcases hother with hother | rfl
    · obtain ⟨hlatest, hrunning, hlock, hall⟩ := h.tracked.cancelling other hother hother'
      refine ⟨hlatest, hrunning, hlock, fun start hstart hstarts => ?_⟩
      rcases hcases hstart with hstart | rfl
      · exact hall start hstart hstarts
      · exact hearly
    · rw [hcancels] at hother'
      cases hother'
  · intro k cancel hk hcancel hpoint j hj other hother hstarts
    rcases SingleOwner.getElem?_append_cases hk with ⟨-, rfl⟩ | hk
    · exact absurd (hclosing hcancel) hpoint
    · have hlt : k < s.calls.length := (List.getElem?_eq_some_iff.mp hk).1
      rcases SingleOwner.getElem?_append_cases hother with ⟨rfl, -⟩ | hother
      · omega
      · exact h.ceased.before k cancel hk hcancel hpoint j hj other hother hstarts
  · intro k cancel hk hcancel hpoint
    rcases SingleOwner.getElem?_append_cases hk with ⟨-, rfl⟩ | hk
    · exact absurd (hclosing hcancel) hpoint
    · exact h.ceased.live k cancel hk hcancel hpoint
  · intro other hother hstarts waiting hpoint
    rcases hcases hother with hother | rfl
    · exact h.faithful.announced other hother hstarts waiting hpoint
    · exact absurd hpoint (not_or.mpr (hwriting waiting))
  · intro other hother hstarts waiting hpoint
    rcases hcases hother with hother | rfl
    · exact h.faithful.emptied other hother hstarts waiting hpoint
    · exact absurd hpoint (hwriting waiting).2
  · intro other hother hcancel hpoint
    rcases hcases hother with hother | rfl
    · exact h.faithful.closing other hother hcancel hpoint
    · cases (hclosing hcancel).symm.trans hpoint
  · intro check hcheck
    refine (h.faithful.started check hcheck).imp_right ?_
    rintro ⟨other, hother, hrest⟩
    exact ⟨other, List.getElem?_append_left (List.getElem?_eq_some_iff.mp hother).1 ▸ hother, hrest⟩
  · intro hquiet
    refine Trust.Faithful.shows_keep
      (h.faithful.shown fun other hother => hquiet other (List.mem_append_left _ hother))
      ⟨rfl, rfl, rfl⟩ (fun i check hcheck => ⟨check.aborted, hcheck⟩) fun i hex => .inl (hold hex)

theorem step {e : TrustEvent} (h : s.Ordered) (hturn : s.InTurn e) (hstep : s.step e = some s') :
    s'.Ordered := by
  cases Trust.step_move hstep with
  | invoke hcall => exact h.invoke hcall
  | call hk hmove =>
      have hturn := hturn _ hk
      exact ⟨h.locked.callMove hk hturn hmove, h.tracked.callMove h.locked hk hturn hmove,
        h.ceased.callMove h.locked h.tracked hk hturn hmove,
        h.faithful.callMove h.locked h.tracked hk hturn hmove⟩
  | check hcheck hmove =>
      refine ⟨?_, h.tracked.checkMove hcheck hmove, h.ceased.checkMove hcheck hmove,
        h.faithful.checkMove h.locked h.tracked hcheck hmove⟩
      obtain ⟨hcalls, hlock, hrunning, -⟩ := hmove.calls
      refine ⟨?_, ?_, ?_⟩
      · rw [hcalls, hlock]
        exact h.locked.lock
      · rw [hcalls]
        exact h.locked.turn
      · rw [hcalls, hrunning]
        exact h.locked.vacant
  | aside =>
      exact ⟨⟨h.locked.lock, h.locked.turn, h.locked.vacant⟩,
        ⟨h.tracked.live, h.tracked.aborted, h.tracked.running, h.tracked.held, h.tracked.newest,
          h.tracked.cancelling⟩,
        ⟨h.ceased.before, h.ceased.live⟩,
        ⟨h.faithful.announced, h.faithful.emptied, h.faithful.closing, h.faithful.started,
          h.faithful.verified, h.faithful.shown⟩⟩

end Trust.Ordered

theorem ordered_of_reach {credential : Option Credential} {s : Trust}
    (h : (trust credential).Reach Trust.InTurn s) : s.Ordered :=
  h.invariant .default fun hs hturn hstep => hs.step hturn hstep

/-- What a check shows as its gate it has opened. -/
theorem Check.opened_of_shows {check : Check} {gate : TlsInspectionGate}
    (h : check.shows.2 = some gate) : check.point.opened = some gate := by
  unfold Check.shows at h
  split at h
  · cases h
  · cases h
  · cases h
  next hpoint => rw [hpoint]; exact h
  next hpoint => rw [hpoint]; exact h

/-- Status and gate are those of that check, which was not cut off: while its task runs, the
status is what its start has returned and there is no gate; a gate is there only if that check
has verified its client. -/
structure Trust.Displays (s : Trust) (check : Check) : Prop where
  notCutOff : check.point ≠ .cutOff
  shows : (s.status, s.gate) = check.shows
  waiting : check.waiting.state = .waiting
  returned : ∃ call, s.calls[check.call]? = some call ∧ call.kind.starts = true ∧
    call.point = .returned (.ok check.waiting)
  verified : ∀ gate, s.gate = some gate →
    runCheck check.leaf check.client (.client (.ok ()) true) = .ok gate

/-- Only the latest check grants readiness. -/
structure Trust.OnlyLatest (s : Trust) : Prop where
  /-- At most one task can still write. -/
  single : ∀ (i j : Nat) (a b : Check), s.checks[i]? = some a → s.checks[j]? = some b →
    a.point.live = true → b.point.live = true → i = j
  /-- After a cancel has returned, the task of a start invoked before it makes no step. -/
  ceased : ∀ (k : Nat) (call : TrustCall) result, s.calls[k]? = some call → call.kind = .cancel →
    call.point = .returned result → ∀ (i : Nat) (check : Check), s.checks[i]? = some check →
      check.call < k → ∀ answer, s.step (.check i answer) = none
  /-- Between calls, status and gate are idle, or those of the check started last. -/
  displays : (∀ call ∈ s.calls, call.point.over = true) →
    (s.latest = none → s.status = .idle ∧ s.gate = none) ∧
      ∀ i, s.latest = some i → i + 1 = s.checks.length ∧
        ∃ check, s.checks[i]? = some check ∧ s.Displays check

theorem Trust.Ordered.single {s : Trust} (h : s.Ordered) {i j : Nat} {a b : Check}
    (hi : s.checks[i]? = some a) (hj : s.checks[j]? = some b) (ha : a.point.live = true)
    (hb : b.point.live = true) : i = j := by
  rcases h.tracked.live i a hi ha with hrunning | ⟨call, hcall, hholds⟩
  · rcases h.tracked.live j b hj hb with hrunning' | ⟨other, hother, hholds'⟩
    · exact Option.some.inj (hrunning.symm.trans hrunning')
    · cases (Trust.Tracked.holds_none h.locked hrunning hother).symm.trans hholds'
  · rcases h.tracked.live j b hj hb with hrunning' | ⟨other, hother, hholds'⟩
    · cases (Trust.Tracked.holds_none h.locked hrunning' hcall).symm.trans hholds
    · obtain ⟨n, hn⟩ := List.mem_iff_getElem?.mp hcall
      obtain ⟨m, hm⟩ := List.mem_iff_getElem?.mp hother
      obtain rfl := h.locked.eq_of_busy hn hm (TrustCall.busy_of_holds hholds)
        (TrustCall.busy_of_holds hholds')
      cases hn.symm.trans hm
      exact Option.some.inj (hholds.symm.trans hholds')

theorem Trust.Ordered.ceased_of_returned {s : Trust} (h : s.Ordered) {k i : Nat} {call : TrustCall}
    {check : Check} {result : Except String TlsTrustCheckStatus} (hk : s.calls[k]? = some call)
    (hcancel : call.kind = .cancel) (hpoint : call.point = .returned result)
    (hcheck : s.checks[i]? = some check) (hcall : check.call < k) (answer : CheckAnswer) :
    s.step (.check i answer) = none := by
  have hdead : check.point.live = false := by
    cases hlive : check.point.live with
    | false => rfl
    | true =>
        have hjoining := h.ceased.live k call hk (by rw [hcancel]; rfl) (by simp [hpoint]) i check
          hcheck hcall hlive
        cases hpoint.symm.trans hjoining
  show (s.checks[i]?.bind fun check => s.checkStep i check answer) = none
  rw [hcheck]
  exact Trust.checkStep_over hdead

/-- When all calls have returned, nobody is writing. -/
theorem Trust.Ordered.shown {s : Trust} (h : s.Ordered)
    (hover : ∀ call ∈ s.calls, call.point.over = true) : s.Shows := by
  refine h.faithful.shown fun call hcall => ?_
  obtain ⟨result, hpoint⟩ := TrustCallPoint.over_iff.mp (hover call hcall)
  simp [TrustCall.writing, TrustCall.cancels, TrustCallPoint.idle, hpoint]

theorem Trust.Ordered.displays {s : Trust} (h : s.Ordered)
    (hover : ∀ call ∈ s.calls, call.point.over = true) {i : Nat} (hlatest : s.latest = some i) :
    ∃ check, s.checks[i]? = some check ∧ s.Displays check := by
  have hshown := h.shown hover
  unfold Trust.Shows at hshown
  rw [hlatest] at hshown
  obtain ⟨check, hcheck, hshows, hcut⟩ := hshown
  obtain ⟨hwaiting, call, hcall, hstarts, hpoint⟩ :=
    h.faithful.started check (List.mem_of_getElem? hcheck)
  refine ⟨check, hcheck, ?_, hshows, hwaiting, ⟨call, hcall, hstarts, ?_⟩, ?_⟩
  · intro hcutOff
    obtain ⟨other, hother, htook⟩ := hcut hcutOff
    obtain ⟨result, hpoint⟩ := TrustCallPoint.over_iff.mp (hover other hother)
    simp [TrustCall.tookOver, hpoint] at htook
  · obtain ⟨result, hresult⟩ := TrustCallPoint.over_iff.mp (hover call (List.mem_of_getElem? hcall))
    rcases hpoint with ⟨n, hpoint⟩ | hpoint
    · cases hpoint.symm.trans hresult
    · exact hpoint
  · intro gate hgate
    refine h.faithful.verified check (List.mem_of_getElem? hcheck) gate (Check.opened_of_shows ?_)
    rw [← hshows]
    exact hgate

/-- **Only the latest trust check grants readiness**: in every state of a run whose calls take
their turns, one task at most can write, no task of a start invoked before a cancel that has
returned makes a step, and when all calls have returned, status and gate are those of the check
started last, or idle if it was cancelled. -/
theorem only_latest_check_grants_readiness {credential : Option Credential} {s : Trust}
    (h : (trust credential).Reach Trust.InTurn s) : s.OnlyLatest := by
  have hordered := ordered_of_reach h
  refine ⟨fun i j a b => hordered.single, fun k call result hk hcancel hpoint i check =>
    hordered.ceased_of_returned hk hcancel hpoint, fun hover => ⟨fun hlatest => ?_, fun i hlatest =>
    ⟨hordered.tracked.newest i hlatest, hordered.displays hover hlatest⟩⟩⟩
  have hshown := hordered.shown hover
  unfold Trust.Shows at hshown
  rw [hlatest] at hshown
  exact hshown

/-- A start that opens its endpoint, announces its check and spawns it. -/
def checkStarted : List TrustEvent :=
  [.start ⟨"a1".toList, "localhost".toList, 900000000⟩
      ⟨"browser-2".toList, "Browser".toList, ⟨rfl, rfl⟩⟩ 60000000000,
    .call 0 .go, .call 0 (.bound 4433), .call 0 .go, .call 0 .go, .call 0 .go]

/-- The client visits the endpoint after the start has returned, and is verified. -/
theorem verified_check_is_displayed :
    ∃ s, (trust none).run (checkStarted ++ [.call 0 .go,
        .check 0 (.visit (.client (.ok ()) true)), .check 0 .go, .check 0 .go]) = some s ∧
      s.gate.isSome = true ∧ s.OnlyLatest := by
  have hrun : (((trust none).run (checkStarted ++ [.call 0 .go,
      .check 0 (.visit (.client (.ok ()) true)), .check 0 .go, .check 0 .go])).map fun s =>
        s.gate.isSome) = some true := by
    decide +kernel
  obtain ⟨s, hrun, hgate⟩ := Option.map_eq_some_iff.mp hrun
  exact ⟨s, hrun, hgate, only_latest_check_grants_readiness
    (Machine.reach_of_run _ (by decide +kernel) hrun)⟩

/-- A cancel runs from its call to its return between two steps of a start, which spawns its
check afterwards. -/
def checkOutlivesCancel : List TrustEvent :=
  checkStarted.take 2 ++ [.cancel, .call 1 .go, .call 1 .go, .call 1 .go] ++ checkStarted.drop 2

/-- **A cancelled check still writes.** -/
theorem cancelled_check_still_writes :
    ∃ s, (trust none).Reachable s ∧ ¬ s.OnlyLatest := by
  have hrun : (((trust none).run checkOutlivesCancel).map fun s =>
      (s.calls[1]?, (s.checks[0]?).map Check.call,
        (s.step (.check 0 (.visit .nobody))).isSome)) =
      some (some ⟨.cancel, .returned (.ok .idle)⟩, some 0, true) := by
    decide +kernel
  obtain ⟨s, hrun, hstate⟩ := Option.map_eq_some_iff.mp hrun
  refine ⟨s, Machine.reachable_of_run _ hrun, fun h => ?_⟩
  obtain ⟨hcall, hrest⟩ := Prod.mk.inj hstate
  obtain ⟨hcheck, hstep⟩ := Prod.mk.inj hrest
  obtain ⟨check, hcheck, hzero⟩ := Option.map_eq_some_iff.mp hcheck
  rw [h.ceased 1 _ _ hcall rfl rfl 0 check hcheck (by omega)] at hstep
  cases hstep

end SippinSoda
