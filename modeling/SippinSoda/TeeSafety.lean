import SippinSoda.Tee

/-!
# The tee is transparent and does not over-claim

* `Forwards` — what the body yields is what the inner body returned;
* `Pipes` — what the pipe has accepted is a prefix of the data frames, all of it when the
  body closed the pipe itself;
* `Stores` — what the worker has stored, and when the result can be complete.
-/

namespace SippinSoda.Tee

/-! ## What a step can do -/

/-- **All that a step can do**, with the guards of the machine's `match` taken apart. -/
inductive StepCases (source : Option Decoder) (s : State) : Event → State → Prop
  | poll : s.pc = .idle →
      StepCases source s .poll { s with pc := if s.pending.isNone then .inner else .loop }
  | inner {event s'} : s.pc = .inner → innerStep s event = some s' → StepCases source s event s'
  | endOfStream : s.inner = .streaming →
      StepCases source s .innerEndOfStream { s with inner := .endOfStream }
  | body {s'} : bodyStep s = some s' → StepCases source s .go s'
  | put {event s'} : s.pc = .put → s.tap = some ⟨true⟩ → putStep s event = some s' →
      StepCases source s event s'
  | dropBody : s.pc = .idle → StepCases source s .dropBody (takeTap s .gone)
  | cancel : StepCases source s .cancel { s with cancelled := true, aborted := true }
  | work {event s'} : workerStep source s event = some s' → StepCases source s event s'

theorem step_cases {source : Option Decoder} {s s' : State} {event : Event}
    (h : step source s event = some s') : StepCases source s event s' := by
  unfold step at h
  split at h
  -- poll
  · split at h <;> cases h
    exact .poll ‹_›
  -- innerEndOfStream
  · split at h <;> cases h
    exact .endOfStream ‹_›
  · exact .body h
  -- dropBody
  · split at h <;> cases h
    exact .dropBody ‹_›
  · cases h
    exact .cancel
  -- the answers, as the machine takes them
  · split at h
    · exact .inner ‹_› h
    · exact .put ‹_› ‹_› h
    · exact .work h
    · cases h

/-! ## Forwarding -/

/-- The frames yielded so far. -/
def delivered (out : List Out) : List Frame :=
  out.filterMap fun
    | .frame frame => some frame
    | _ => none

@[simp] theorem delivered_append (a b : List Out) :
    delivered (a ++ b) = delivered a ++ delivered b := List.filterMap_append

@[simp] theorem delivered_after (after : After) : delivered after.out = [] := by
  cases after <;> rfl

@[simp] theorem delivered_frame (pending : Option Frame) :
    delivered (pending.map Out.frame).toList = pending.toList := by
  cases pending <;> rfl

/-- What holds when the body goes on in this way. -/
def After.Ready (s : State) : After → Prop
  | .check | .emit => s.pending.isSome = true
  | .error => s.pending = none ∧ s.inner = .failed
  | .done => s.pending = none ∧ s.inner = .ended
  | .gone => True

/-- What holds at each place in `poll_frame`. -/
def Ready (s : State) : BodyPc → Prop
  | .inner => s.pending = none
  | .join true => s.pending = none ∧ s.inner = .ended
  | .loop | .put | .check | .join false | .emit => s.pending.isSome = true
  | .dropTap after | .closeTap after => after.Ready s
  | .idle | .finished => True

/-- What the body has yielded, against what the inner body has returned. -/
structure Forwards (s : State) : Prop where
  frames : s.frames = delivered s.out ++ s.pending.toList
  ready : Ready s s.pc
  /-- Until the body is finished it has yielded frames only. -/
  out : s.pc ≠ .finished → s.out = (delivered s.out).map .frame
  /-- A finished body has yielded nothing more, or the error or the end of the inner one. -/
  finished : ∃ tail, s.out = (delivered s.out).map .frame ++ tail ∧
    (tail = [] ∨ s.pending = none ∧
      (tail = [.error] ∧ s.inner = .failed ∨ tail = [.done] ∧ s.inner = .ended))

theorem Ready.congr {s t : State} {pc : BodyPc} (h : Ready s pc)
    (hpending : t.pending = s.pending) (hinner : t.inner = s.inner ∨ s.inner = .streaming) :
    Ready t pc := by
  have hkeep : ∀ i, i ≠ .streaming → s.inner = i → t.inner = i := by
    intro i hi hs
    rcases hinner with heq | hstreaming
    · rw [heq, hs]
    · exact absurd (hstreaming.symm.trans hs) (Ne.symm hi)
  have hafter : ∀ after : After, after.Ready s → after.Ready t := by
    intro after ha
    cases after with
    | check | emit => exact (congrArg Option.isSome hpending).trans ha
    | error | done => exact ⟨hpending.trans ha.1, hkeep _ (by simp) ha.2⟩
    | gone => trivial
  cases pc with
  | join atEnd =>
      cases atEnd with
      | true => exact ⟨hpending.trans h.1, hkeep _ (by simp) h.2⟩
      | false => exact (congrArg Option.isSome hpending).trans h
  | dropTap after | closeTap after => exact hafter after h
  | idle | finished => trivial
  | inner => exact hpending.trans h
  | _ => exact (congrArg Option.isSome hpending).trans h

theorem Forwards.next {s t : State} (hs : Forwards s) (hpc : s.pc ≠ .finished) {after : After}
    (hready : after.Ready t) (hframes : t.frames = s.frames) (hout : t.out = s.out)
    (hpending : t.pending = s.pending) : Forwards (After.next t after) := by
  have hold := hs.out hpc
  refine ⟨?_, ?_, ?_, ?_⟩
  · simpa [After.next, hframes, hout, hpending] using hs.frames
  · cases after <;> first | exact hready | trivial
  · intro hne
    cases after with
    | check | emit => simpa [After.next, After.out, hout] using hold
    | error | done | gone => exact absurd rfl hne
  · refine ⟨after.out, ?_, ?_⟩
    · simpa [After.next, hout] using hold
    · cases after with
      | error => exact .inr ⟨hready.1, .inl ⟨rfl, hready.2⟩⟩
      | done => exact .inr ⟨hready.1, .inr ⟨rfl, hready.2⟩⟩
      | check | emit | gone => exact .inl rfl

theorem Forwards.takeTap {s t : State} (hs : Forwards s) (hpc : s.pc ≠ .finished)
    {after : After} (hready : after.Ready t) (hframes : t.frames = s.frames)
    (hout : t.out = s.out) (hpending : t.pending = s.pending) :
    Forwards (takeTap t after) := by
  rw [Tee.takeTap]
  split
  · exact hs.next hpc hready hframes hout hpending
  · refine ⟨?_, ?_, fun _ => ?_, ⟨[], ?_, .inl rfl⟩⟩
    · simpa [hframes, hout, hpending] using hs.frames
    · cases after <;> exact hready
    · simpa [hout] using hs.out hpc
    · simpa [hout] using hs.out hpc

/-- Moving on to another place, with the frames and what was yielded as they are. -/
theorem Forwards.move {s t : State} (hs : Forwards s) (hpc : s.pc ≠ .finished)
    (hready : Ready t t.pc) (hframes : t.frames = s.frames) (hout : t.out = s.out)
    (hpending : t.pending = s.pending) : Forwards t := by
  refine ⟨?_, hready, fun _ => ?_, ⟨[], ?_, .inl rfl⟩⟩
  · simpa [hframes, hout, hpending] using hs.frames
  · simpa [hout] using hs.out hpc
  · simpa [hout] using hs.out hpc

/-- Steps of the others: the body stays where it is. -/
theorem Forwards.stay {s t : State} (hs : Forwards s) (hpc : t.pc = s.pc)
    (hframes : t.frames = s.frames) (hout : t.out = s.out) (hpending : t.pending = s.pending)
    (hinner : t.inner = s.inner ∨ s.inner = .streaming) : Forwards t := by
  refine ⟨?_, hpc ▸ hs.ready.congr hpending hinner, ?_, ?_⟩
  · rw [hframes, hout, hpending, hs.frames]
  · rw [hpc, hout]
    exact hs.out
  · obtain ⟨tail, hsplit, hend⟩ := hs.finished
    refine ⟨tail, hout ▸ hsplit, hend.imp_right fun ⟨hnone, hcase⟩ => ?_⟩
    refine ⟨hpending.trans hnone, ?_⟩
    rcases hinner with heq | hstreaming
    · rwa [heq]
    · rw [hstreaming] at hcase
      simp at hcase

/-- The worker does not touch the body. -/
structure SameBody (s t : State) : Prop where
  pc : t.pc = s.pc
  inner : t.inner = s.inner
  frames : t.frames = s.frames
  pending : t.pending = s.pending
  written : t.written = s.written
  tap : t.tap = s.tap
  out : t.out = s.out
  accepted : t.accepted = s.accepted

theorem workerStep_sameBody {source : Option Decoder} {s t : State} {event : Event}
    (h : workerStep source s event = some t) : SameBody s t := by
  cases event <;> simp only [workerStep, reduceCtorEq] at h
  all_goals
    repeat' split at h
    all_goals cases h
    all_goals exact ⟨rfl, rfl, rfl, rfl, rfl, rfl, rfl, rfl⟩

/-- An answer of the inner body. -/
theorem Forwards.inner {s t : State} {event : Event} (hs : Forwards s) (hpc : s.pc = .inner)
    (hinner : innerStep s event = some t) : Forwards t := by
  have hready := hs.ready
  rw [hpc] at hready
  have hne : s.pc ≠ .finished := by simp [hpc]
  cases event <;> simp only [innerStep, reduceCtorEq] at hinner
  case innerPending =>
    split at hinner <;> cases hinner
    exact hs.move hne trivial rfl rfl rfl
  case innerFrame frame endOfStream =>
    split at hinner <;> cases hinner
    have hnone : s.pending = none := hready
    refine ⟨?_, rfl, fun _ => hs.out hne, ⟨[], ?_, .inl rfl⟩⟩
    · simp [hs.frames, hnone]
    · simpa using hs.out hne
  case innerError =>
    split at hinner <;> cases hinner
    exact hs.takeTap hne ⟨hready, rfl⟩ rfl rfl rfl
  case innerDone =>
    split at hinner
    · cases hinner
    · split at hinner <;> cases hinner
      · exact hs.next hne ⟨hready, rfl⟩ rfl rfl rfl
      · exact hs.move hne ⟨hready, rfl⟩ rfl rfl rfl

/-- A step of the body itself. -/
theorem Forwards.body {s t : State} (hs : Forwards s) (hbody : bodyStep s = some t) :
    Forwards t := by
  have hready := hs.ready
  cases hpc : s.pc with
  | loop =>
      rw [hpc] at hready
      have hne : s.pc ≠ .finished := by simp [hpc]
      simp only [bodyStep, hpc] at hbody
      split at hbody
      · split at hbody
        · cases hbody; exact hs.move hne hready rfl rfl rfl
        · split at hbody <;> cases hbody
          · exact hs.takeTap hne hready rfl rfl rfl
          · exact hs.move hne hready rfl rfl rfl
      · cases hbody; exact hs.move hne hready rfl rfl rfl
  | put =>
      rw [hpc] at hready
      simp only [bodyStep, hpc] at hbody
      split at hbody <;> cases hbody
      exact hs.move (by simp [hpc]) hready rfl rfl rfl
  | check =>
      rw [hpc] at hready
      have hne : s.pc ≠ .finished := by simp [hpc]
      simp only [bodyStep, hpc] at hbody
      split at hbody
      · split at hbody <;> cases hbody <;> exact hs.move hne hready rfl rfl rfl
      · cases hbody; exact hs.move hne hready rfl rfl rfl
  | join atEnd =>
      rw [hpc] at hready
      have hne : s.pc ≠ .finished := by simp [hpc]
      simp only [bodyStep, hpc] at hbody
      split at hbody <;> cases hbody
      · refine hs.takeTap hne ?_ rfl rfl rfl
        cases atEnd <;> exact hready
      · exact hs.move hne trivial rfl rfl rfl
  | dropTap after =>
      rw [hpc] at hready
      simp only [bodyStep, hpc] at hbody
      cases hbody
      refine hs.move (by simp [hpc]) ?_ rfl rfl rfl
      exact (hready : Ready s (.closeTap after)).congr rfl (.inl rfl)
  | closeTap after =>
      rw [hpc] at hready
      simp only [bodyStep, hpc] at hbody
      cases hbody
      refine hs.next (by simp [hpc]) ?_ rfl rfl rfl
      exact (hready : Ready s (.closeTap after)).congr rfl (.inl rfl)
  | emit =>
      have hout := hs.out (by simp [hpc])
      simp only [bodyStep, hpc] at hbody
      cases hbody
      have hyield : s.out ++ (s.pending.map Out.frame).toList
          = (delivered (s.out ++ (s.pending.map Out.frame).toList)).map .frame := by
        rw [delivered_append, List.map_append, ← hout, delivered_frame]
        cases s.pending <;> rfl
      refine ⟨?_, trivial, fun _ => hyield, ⟨[], ?_, .inl rfl⟩⟩
      · simp [hs.frames]
      · simpa using hyield
  | idle | inner | finished => simp [bodyStep, hpc] at hbody

/-- An answer of the pipe. -/
theorem Forwards.put {s t : State} {event : Event} (hs : Forwards s) (hpc : s.pc = .put)
    (hput : putStep s event = some t) : Forwards t := by
  have hready := hs.ready
  rw [hpc] at hready
  have hne : s.pc ≠ .finished := by simp [hpc]
  cases event <;> simp only [putStep, reduceCtorEq] at hput
  case accept count =>
    split at hput <;> cases hput
    exact hs.move hne hready rfl rfl rfl
  case full => cases hput; exact hs.move hne trivial rfl rfl rfl
  case refuse => cases hput; exact hs.takeTap hne hready rfl rfl rfl

theorem Forwards.step {source : Option Decoder} {s t : State} {event : Event}
    (hs : Forwards s) (h : StepCases source s event t) : Forwards t := by
  cases h with
  | poll hpc =>
      refine hs.move (by simp [hpc]) ?_ rfl rfl rfl
      cases hp : s.pending <;> simp [Ready]
  | inner hpc hinner => exact hs.inner hpc hinner
  | endOfStream hinner => exact hs.stay rfl rfl rfl rfl (.inr hinner)
  | body hbody => exact hs.body hbody
  | put hpc _ hput => exact hs.put hpc hput
  | dropBody hpc => exact hs.takeTap (by simp [hpc]) trivial rfl rfl rfl
  | cancel => exact hs.stay rfl rfl rfl rfl (.inl rfl)
  | work hwork =>
      have hsame := workerStep_sameBody hwork
      exact hs.stay hsame.pc hsame.frames hsame.out hsame.pending (.inl hsame.inner)

/-! ## The pipe -/

/-- The places reached only when the pending frame is written, if there is a tap. -/
def BodyPc.flushed : BodyPc → Bool
  | .check | .emit | .join _ => true
  | _ => false

/-- What the pipe has accepted, against the data frames. -/
structure Pipes (s : State) : Prop where
  fed : s.tap ≠ none → s.accepted ++ s.pendingData.drop s.written = s.data
  accepted : s.accepted <+: s.data
  flushed : s.tap ≠ none → s.pc.flushed = true → s.pendingData.drop s.written = []
  /-- The body closes the pipe at its end only, when all of it is written. -/
  closed : s.tap = some ⟨false⟩ → s.inner.isEndStream = true ∧ s.accepted = s.data

theorem Pipes.drained {s : State} (hs : Pipes s) (htap : s.tap ≠ none)
    (h : s.pendingData.drop s.written = []) : s.accepted = s.data := by
  have hfed := hs.fed htap
  rwa [h, List.append_nil] at hfed

/-- A step that leaves the pipe and the frames alone, and goes to a flushed place only with
the pending frame written. -/
theorem Pipes.move {s t : State} (hs : Pipes s) (hframes : t.frames = s.frames)
    (hpending : t.pending = s.pending) (hwritten : t.written = s.written)
    (haccepted : t.accepted = s.accepted) (htap : t.tap = none ∨ t.tap = s.tap)
    (hinner : s.inner.isEndStream = true → t.inner.isEndStream = true)
    (hflushed : t.tap ≠ none → t.pc.flushed = true → s.pendingData.drop s.written = []) :
    Pipes t := by
  have hdata : t.data = s.data := by rw [State.data, State.data, hframes]
  have hpd : t.pendingData = s.pendingData := by rw [State.pendingData, hpending]; rfl
  have hkeep : t.tap ≠ none → t.tap = s.tap := fun h => htap.resolve_left h
  refine ⟨?_, ?_, ?_, ?_⟩
  · intro h
    rw [hdata, hpd, hwritten, haccepted]
    exact hs.fed (hkeep h ▸ h)
  · rw [hdata, haccepted]
    exact hs.accepted
  · intro h hf
    rw [hpd, hwritten]
    exact hflushed h hf
  · intro h
    have hold := hs.closed ((hkeep (by simp [h])) ▸ h)
    rw [hdata, haccepted]
    exact ⟨hinner hold.1, hold.2⟩

theorem Pipes.takeTap {s t : State} (hs : Pipes s) (hframes : t.frames = s.frames)
    (hpending : t.pending = s.pending) (hwritten : t.written = s.written)
    (haccepted : t.accepted = s.accepted) (htap : t.tap = s.tap)
    (hinner : s.inner.isEndStream = true → t.inner.isEndStream = true) (after : After) :
    Pipes (takeTap t after) := by
  rw [Tee.takeTap]
  split
  · rename_i hnone
    exact hs.move hframes hpending hwritten haccepted (.inl hnone) hinner
      (fun h => absurd hnone h)
  · exact hs.move hframes hpending hwritten haccepted (.inr htap) hinner
      (fun _ hf => nomatch hf)

/-- An answer of the inner body, which is asked with no frame pending. -/
theorem Pipes.inner {s t : State} {event : Event} (hs : Pipes s) (hfwd : Forwards s)
    (hpc : s.pc = .inner) (hinner : innerStep s event = some t) : Pipes t := by
  have hready := hfwd.ready
  rw [hpc] at hready
  have hnone : s.pending = none := hready
  have hempty : s.pendingData = [] := by rw [State.pendingData, hnone]; rfl
  cases event <;> simp only [innerStep, reduceCtorEq] at hinner
  case innerPending =>
    split at hinner <;> cases hinner
    exact hs.move rfl rfl rfl rfl (.inr rfl) id (fun _ hf => nomatch hf)
  case innerFrame frame endOfStream =>
    split at hinner <;> cases hinner
    rename_i hstreaming
    have hdata : State.data { s with frames := s.frames ++ [frame] } = s.data ++ frame.bytes := by
      simp [State.data]
    refine ⟨fun htap => ?_, ?_, (fun _ hf => nomatch hf), fun htap => ?_⟩
    · have hall := hs.drained htap (by rw [hempty, List.drop_nil])
      show s.accepted ++ frame.bytes.drop 0 = State.data { s with frames := s.frames ++ [frame] }
      rw [hdata, hall]
      rfl
    · exact hs.accepted.trans (hdata ▸ List.prefix_append _ _)
    · have := (hs.closed htap).1
      rw [hstreaming] at this
      cases this
  case innerError =>
    split at hinner <;> cases hinner
    rename_i hstreaming
    exact hs.takeTap (t := { s with inner := .failed }) rfl rfl rfl rfl rfl
      (by simp [hstreaming, Inner.isEndStream]) _
  case innerDone =>
    split at hinner
    · cases hinner
    · split at hinner <;> cases hinner
      · rename_i htap
        exact hs.move rfl rfl rfl rfl (.inl htap) (fun _ => rfl) (fun h => absurd htap h)
      · rename_i tap htap
        have hall := hs.drained (by simp [htap]) (by rw [hempty, List.drop_nil])
        exact ⟨fun _ => hs.fed (by simp [htap]), hs.accepted,
          fun _ _ => (congrArg _ hempty).trans List.drop_nil,
          fun _ => ⟨rfl, hall⟩⟩

/-- A step of the body itself. -/
theorem Pipes.body {s t : State} (hs : Pipes s) (hbody : bodyStep s = some t) : Pipes t := by
  cases hpc : s.pc with
  | loop =>
      simp only [bodyStep, hpc] at hbody
      split at hbody
      · split at hbody
        · rename_i htap
          cases hbody
          exact hs.move rfl rfl rfl rfl (.inl htap) id (fun h => absurd htap h)
        · split at hbody <;> cases hbody
          · exact hs.takeTap rfl rfl rfl rfl rfl id _
          · exact hs.move rfl rfl rfl rfl (.inr rfl) id (fun _ hf => nomatch hf)
      · rename_i hge
        cases hbody
        exact hs.move rfl rfl rfl rfl (.inr rfl) id
          (fun _ _ => List.drop_eq_nil_of_le (by omega))
  | put =>
      simp only [bodyStep, hpc] at hbody
      split at hbody <;> cases hbody
      rename_i hclosed
      refine hs.move rfl rfl rfl rfl (.inr rfl) id fun htap _ => ?_
      -- the input is gone: the pipe was closed at the end
      have hfalse : s.tap = some ⟨false⟩ := by
        rcases hopt : s.tap with _ | ⟨_ | _⟩
        · exact absurd hopt htap
        · rfl
        · exact absurd hopt hclosed
      have hfed := hs.fed htap
      rw [(hs.closed hfalse).2] at hfed
      exact List.append_right_eq_self.mp hfed
  | check =>
      simp only [bodyStep, hpc] at hbody
      split at hbody
      · rename_i hend
        split at hbody
        · rename_i htap
          cases hbody
          exact hs.move rfl rfl rfl rfl (.inl htap) id (fun h => absurd htap h)
        · rename_i tap htap
          cases hbody
          have hflushed := hs.flushed (by simp [htap]) (by simp [hpc, BodyPc.flushed])
          exact ⟨fun _ => hs.fed (by simp [htap]), hs.accepted, fun _ _ => hflushed,
            fun _ => ⟨hend, hs.drained (by simp [htap]) hflushed⟩⟩
      · cases hbody
        exact hs.move rfl rfl rfl rfl (.inr rfl) id
          (fun h _ => hs.flushed h (by simp [hpc, BodyPc.flushed]))
  | join atEnd =>
      simp only [bodyStep, hpc] at hbody
      split at hbody <;> cases hbody
      · exact hs.takeTap rfl rfl rfl rfl rfl id _
      · exact hs.move rfl rfl rfl rfl (.inr rfl) id (fun _ hf => nomatch hf)
  | dropTap after =>
      simp only [bodyStep, hpc] at hbody
      cases hbody
      exact hs.move rfl rfl rfl rfl (.inr rfl) id (fun _ hf => nomatch hf)
  | closeTap after =>
      simp only [bodyStep, hpc] at hbody
      cases hbody
      exact hs.move rfl rfl rfl rfl (.inl rfl) id (fun h => absurd rfl h)
  | emit =>
      simp only [bodyStep, hpc] at hbody
      cases hbody
      refine ⟨fun htap => ?_, hs.accepted, (fun _ hf => nomatch hf), hs.closed⟩
      have hall := hs.drained htap (hs.flushed htap (by simp [hpc, BodyPc.flushed]))
      simpa [State.pendingData, State.data] using hall
  | idle | inner | finished => simp [bodyStep, hpc] at hbody

/-- An answer of the pipe. -/
theorem Pipes.put {s t : State} {event : Event} (hs : Pipes s) (htap : s.tap = some ⟨true⟩)
    (hput : putStep s event = some t) : Pipes t := by
  cases event <;> simp only [putStep, reduceCtorEq] at hput
  case accept count =>
    split at hput <;> cases hput
    have hfed := hs.fed (by simp [htap])
    refine ⟨fun _ => ?_, ?_, (fun _ hf => nomatch hf), fun h => absurd h (by simp [htap])⟩
    · show s.accepted ++ (s.pendingData.drop s.written).take count
        ++ s.pendingData.drop (s.written + count) = s.data
      rw [List.append_assoc, ← List.drop_drop, List.take_append_drop]
      exact hfed
    · refine ⟨s.pendingData.drop (s.written + count), ?_⟩
      show s.accepted ++ (s.pendingData.drop s.written).take count
        ++ s.pendingData.drop (s.written + count) = s.data
      rw [List.append_assoc, ← List.drop_drop, List.take_append_drop]
      exact hfed
  case full =>
    cases hput
    exact hs.move rfl rfl rfl rfl (.inr rfl) id (fun _ hf => nomatch hf)
  case refuse => cases hput; exact hs.takeTap rfl rfl rfl rfl rfl id _

theorem Pipes.step {source : Option Decoder} {s t : State} {event : Event}
    (hfwd : Forwards s) (hs : Pipes s) (h : StepCases source s event t) : Pipes t := by
  cases h with
  | poll hpc =>
      refine hs.move rfl rfl rfl rfl (.inr rfl) id fun _ hf => ?_
      cases hp : s.pending <;> simp [hp, BodyPc.flushed] at hf
  | inner hpc hinner => exact hs.inner hfwd hpc hinner
  | endOfStream hinner => exact hs.move rfl rfl rfl rfl (.inr rfl) (fun _ => rfl) hs.flushed
  | body hbody => exact hs.body hbody
  | put _ htap hput => exact hs.put htap hput
  | dropBody hpc => exact hs.takeTap rfl rfl rfl rfl rfl id _
  | cancel => exact ⟨hs.fed, hs.accepted, hs.flushed, hs.closed⟩
  | work hwork =>
      have hsame := workerStep_sameBody hwork
      refine hs.move hsame.frames hsame.pending hsame.written hsame.accepted (.inr hsame.tap)
        (fun h => hsame.inner ▸ h) fun htap hf => ?_
      rw [hsame.tap] at htap
      rw [hsame.pc] at hf
      exact hs.flushed htap hf

/-! ## The worker -/

/-- The whole body has been accepted and read. -/
structure Full (s : State) : Prop where
  ended : s.inner.isEndStream = true
  accepted : s.accepted = s.data
  unread : s.unread = []

/-- What the worker's complete result rests on: the whole output of what it has consumed is
stored, and, over a decoder that reads to the end of the pipe, the body is full, unless the
result is already decided otherwise. -/
structure Completes (decoder : Decoder) (s : State) : Prop where
  stored : s.file = decoder.output s.consumed
  ends : decoder.ends s.consumed true = true ∨ decoder.ends s.consumed false = true
  full : (∀ consumed, decoder.ends consumed false = false) →
    Full s ∨ s.result = .partially

/-- What the worker has read and stored, and what the result can be. -/
structure Stores (source : Option Decoder) (s : State) : Prop where
  split : s.accepted = s.consumed ++ s.unread
  stored : ∀ decoder ∈ source, s.file <+: decoder.output s.consumed
  buffered : ∀ decoder ∈ source, s.worker = .reserving ∨ s.worker = .writing →
    s.file ++ s.buffer <+: decoder.output s.consumed
  undecided : s.worker ≠ .ended → s.result = .recording ∨ s.result = .partially
  /-- The tap finishes the entry before it closes the pipe. -/
  dropped : s.tap = none ∨ (∃ after, s.pc = .closeTap after) →
    s.result ≠ .recording ∨ s.worker = .ended
  completes : s.worker = .finishing .complete ∨ s.result = .complete →
    ∃ decoder ∈ source, Completes decoder s

/-- A step of the body or of the canceller: the worker keeps what it has, the result stays
or is finished as partial, and a full body stays full. -/
theorem Stores.frame {source : Option Decoder} {s t : State} (hs : Stores source s)
    (hsplit : t.accepted = t.consumed ++ t.unread) (hworker : t.worker = s.worker)
    (hconsumed : t.consumed = s.consumed) (hbuffer : t.buffer = s.buffer)
    (hfile : t.file = s.file)
    (hresult : t.result = s.result ∨ t.result = s.result.finish .partially)
    (hdropped : t.tap = none ∨ (∃ after, t.pc = .closeTap after) →
      t.result ≠ .recording ∨ t.worker = .ended)
    (hfull : Full s → Full t) : Stores source t := by
  have hfinish : ∀ state, s.result = state → state ≠ .recording → t.result = state := by
    intro state hstate hne
    rcases hresult with h | h
    · rw [h, hstate]
    · rw [h, hstate, RecordState.finish, if_neg hne]
  have hcomplete : t.result = .complete → s.result = .complete := by
    intro h
    rcases hresult with heq | heq
    · rw [← heq, h]
    · rw [heq, RecordState.finish] at h
      split at h
      · cases h
      · exact h
  refine ⟨hsplit, ?_, ?_, ?_, hdropped, ?_⟩
  · rw [hfile, hconsumed]
    exact hs.stored
  · rw [hworker, hfile, hbuffer, hconsumed]
    exact hs.buffered
  · intro hne
    rcases hs.undecided (hworker ▸ hne) with hrec | hpart
    · rcases hresult with h | h
      · exact .inl (h.trans hrec)
      · exact .inr (by rw [h, hrec]; rfl)
    · exact .inr (hfinish _ hpart (by simp))
  · intro hcase
    obtain ⟨decoder, hmem, hc⟩ := hs.completes (hcase.imp (hworker ▸ ·) hcomplete)
    refine ⟨decoder, hmem, ?_, ?_, fun hto => ?_⟩
    · rw [hfile, hconsumed]
      exact hc.stored
    · rw [hconsumed]
      exact hc.ends
    · exact (hc.full hto).imp hfull (hfinish _ · (by simp))

/-- A body that is full stays full while no frame comes and nothing is accepted. -/
theorem Full.congr {s t : State} (h : Full s) (hframes : t.frames = s.frames)
    (haccepted : t.accepted = s.accepted) (hunread : t.unread = s.unread)
    (hinner : s.inner.isEndStream = true → t.inner.isEndStream = true) : Full t where
  ended := hinner h.ended
  accepted := by rw [State.data, hframes, haccepted]; exact h.accepted
  unread := hunread.trans h.unread

theorem Stores.takeTap {source : Option Decoder} {s t : State} (hs : Stores source s)
    (hframes : t.frames = s.frames) (htap : t.tap = s.tap)
    (haccepted : t.accepted = s.accepted) (hunread : t.unread = s.unread)
    (hworker : t.worker = s.worker) (hconsumed : t.consumed = s.consumed)
    (hbuffer : t.buffer = s.buffer) (hfile : t.file = s.file) (hresult : t.result = s.result)
    (hinner : s.inner.isEndStream = true → t.inner.isEndStream = true) (after : After) :
    Stores source (takeTap t after) := by
  have hsplit : t.accepted = t.consumed ++ t.unread := by
    rw [haccepted, hconsumed, hunread]
    exact hs.split
  rw [Tee.takeTap]
  split
  · rename_i hnone
    refine hs.frame hsplit hworker hconsumed hbuffer hfile (.inl hresult) (fun _ => ?_)
      (·.congr hframes haccepted hunread hinner)
    have := hs.dropped (.inl (htap ▸ hnone))
    rw [After.next, hresult, hworker]
    exact this
  · rename_i tap hsome
    refine hs.frame hsplit hworker hconsumed hbuffer hfile (.inl hresult) (fun h => ?_)
      (·.congr hframes haccepted hunread hinner)
    rcases h with h | ⟨_, h⟩
    · rw [hsome] at h
      cases h
    · cases h

/-- A step of the body that leaves the tap and the pipe as they are. -/
theorem Stores.move {source : Option Decoder} {s t : State} (hs : Stores source s)
    (hframes : t.frames = s.frames) (htap : t.tap = s.tap)
    (haccepted : t.accepted = s.accepted) (hunread : t.unread = s.unread)
    (hworker : t.worker = s.worker) (hconsumed : t.consumed = s.consumed)
    (hbuffer : t.buffer = s.buffer) (hfile : t.file = s.file) (hresult : t.result = s.result)
    (hinner : s.inner.isEndStream = true → t.inner.isEndStream = true)
    (hpc : ∀ after, t.pc ≠ .closeTap after) : Stores source t := by
  refine hs.frame ?_ hworker hconsumed hbuffer hfile (.inl hresult) (fun h => ?_)
    (·.congr hframes haccepted hunread hinner)
  · rw [haccepted, hconsumed, hunread]
    exact hs.split
  · rw [hresult, hworker]
    exact hs.dropped (.inl (htap ▸ h.resolve_right fun ⟨after, h⟩ => hpc after h))

/-- The body closes its end of the pipe. -/
theorem Stores.close {source : Option Decoder} {s : State} (hs : Stores source s)
    {inner : Inner} (hinner : s.inner.isEndStream = true → inner.isEndStream = true)
    {pc : BodyPc} (hpc : ∀ after, pc ≠ .closeTap after) :
    Stores source { s with inner := inner, tap := some ⟨false⟩, pc := pc } := by
  refine hs.frame hs.split rfl rfl rfl rfl (.inl rfl) (fun h => ?_)
    (·.congr rfl rfl rfl hinner)
  rcases h with h | ⟨after, h⟩
  · cases h
  · exact absurd h (hpc after)

theorem Stores.body {source : Option Decoder} {s t : State} (hs : Stores source s)
    (h : bodyStep s = some t) : Stores source t := by
  cases hpc : s.pc with
  | loop =>
      simp only [bodyStep, hpc] at h
      split at h
      · split at h
        · cases h
          exact hs.move rfl rfl rfl rfl rfl rfl rfl rfl rfl id (by simp)
        · split at h <;> cases h
          · exact hs.takeTap rfl rfl rfl rfl rfl rfl rfl rfl rfl id _
          · exact hs.move rfl rfl rfl rfl rfl rfl rfl rfl rfl id (by simp)
      · cases h
        exact hs.move rfl rfl rfl rfl rfl rfl rfl rfl rfl id (by simp)
  | put =>
      simp only [bodyStep, hpc] at h
      split at h <;> cases h
      exact hs.move rfl rfl rfl rfl rfl rfl rfl rfl rfl id (by simp)
  | check =>
      simp only [bodyStep, hpc] at h
      split at h
      · split at h <;> cases h
        · exact hs.move rfl rfl rfl rfl rfl rfl rfl rfl rfl id (by simp)
        · exact hs.close id (by simp)
      · cases h
        exact hs.move rfl rfl rfl rfl rfl rfl rfl rfl rfl id (by simp)
  | join atEnd =>
      simp only [bodyStep, hpc] at h
      split at h <;> cases h
      · exact hs.takeTap rfl rfl rfl rfl rfl rfl rfl rfl rfl id _
      · exact hs.move rfl rfl rfl rfl rfl rfl rfl rfl rfl id (by simp)
  | dropTap after =>
      simp only [bodyStep, hpc] at h
      cases h
      refine hs.frame hs.split rfl rfl rfl rfl (.inr rfl) (fun _ => .inl ?_)
        (·.congr rfl rfl rfl id)
      show s.result.finish .partially ≠ .recording
      rw [RecordState.finish]
      split <;> simp_all
  | closeTap after =>
      simp only [bodyStep, hpc] at h
      cases h
      exact hs.frame hs.split rfl rfl rfl rfl (.inl rfl)
        (fun _ => hs.dropped (.inr ⟨after, hpc⟩)) (·.congr rfl rfl rfl id)
  | emit =>
      simp only [bodyStep, hpc] at h
      cases h
      exact hs.move rfl rfl rfl rfl rfl rfl rfl rfl rfl id (by simp)
  | idle | inner | finished => simp [bodyStep, hpc] at h

/-- A worker that has not ended moves on: it may consume a part of what the pipe holds, and
what it then has in its file and in its buffer is output of what it has consumed. -/
theorem Stores.work {source : Option Decoder} {s t : State} (hs : Stores source s)
    (hlive : s.worker ≠ .ended) (hsame : SameBody s t) (hresult : t.result = s.result)
    (n : Nat) (hconsumed : t.consumed = s.consumed ++ s.unread.take n)
    (hunread : t.unread = s.unread.drop n)
    (hstored : ∀ decoder ∈ source, s.file <+: decoder.output t.consumed →
      t.file <+: decoder.output t.consumed ∧
        (t.worker = .reserving ∨ t.worker = .writing →
          t.file ++ t.buffer <+: decoder.output t.consumed))
    (hcompletes : t.worker = .finishing .complete → ∃ decoder ∈ source, Completes decoder t) :
    Stores source t := by
  have hgrows : ∀ decoder ∈ source, s.file <+: decoder.output t.consumed := by
    intro decoder hmem
    rw [hconsumed]
    exact (hs.stored decoder hmem).trans (decoder.grows _ _)
  refine ⟨?_, fun d hd => (hstored d hd (hgrows d hd)).1,
    fun d hd => (hstored d hd (hgrows d hd)).2, fun _ => ?_, fun h => ?_, fun h => ?_⟩
  · rw [hsame.accepted, hs.split, hconsumed, hunread, List.append_assoc, List.take_append_drop]
  · rw [hresult]
    exact hs.undecided hlive
  · rw [hsame.tap, hsame.pc] at h
    rw [hresult]
    exact .inl ((hs.dropped h).resolve_right hlive)
  · refine hcompletes (h.resolve_right fun hcomplete => ?_)
    rw [hresult] at hcomplete
    rcases hs.undecided hlive with hr | hr <;> rw [hr] at hcomplete <;> cases hcomplete

section Worker

variable {source : Option Decoder} {s t : State}

theorem take_zero_eq {α : Type} {l more : List α} : l = l ++ more.take 0 := by
  rw [List.take_zero, List.append_nil]

/-- A worker that goes on without touching its file or its buffer. -/
theorem Stores.goes (hs : Stores source s) {w : WorkerPc} (hlive : s.worker ≠ .ended)
    (hw : w ≠ .finishing .complete)
    (hbuf : w = .reserving ∨ w = .writing → s.worker = .reserving ∨ s.worker = .writing) :
    Stores source { s with worker := w } :=
  hs.work hlive ⟨rfl, rfl, rfl, rfl, rfl, rfl, rfl, rfl⟩ rfl 0 take_zero_eq rfl
    (fun d hd hfile => ⟨hfile, fun hcase => hs.buffered d hd (hbuf hcase)⟩)
    (fun hcase => absurd hcase hw)

/-- The worker finishes the entry: the one step that can make the result complete. -/
theorem Stores.finishes (hs : Stores source s) {state : RecordState}
    (hw : s.worker = .finishing state) :
    Stores source { s with worker := .ended, result := s.result.finish state } := by
  refine ⟨hs.split, hs.stored, by simp, by simp, fun _ => .inr rfl, fun hcase => ?_⟩
  have hfinish : s.result.finish state = .complete := hcase.resolve_left (by simp)
  have hund := hs.undecided (by simp [hw])
  rw [RecordState.finish] at hfinish
  split at hfinish
  · rename_i hrec
    subst hfinish
    obtain ⟨d, hd, hc⟩ := hs.completes (.inl hw)
    refine ⟨d, hd, hc.stored, hc.ends, fun hto => .inl ?_⟩
    exact ((hc.full hto).resolve_right (by simp [hrec])).congr rfl rfl rfl id
  · rename_i hrec
    rcases hund with hr | hr
    · exact absurd hr hrec
    · rw [hr] at hfinish
      cases hfinish

/-- What the worker does by itself. -/
theorem Stores.works (hs : Stores source s)
    (h : workerStep source s .work = some t) : Stores source t := by
  have hbody := workerStep_sameBody h
  simp only [workerStep] at h
  split at h
  · rename_i hw
    split at h <;> cases h
    · exact hs.goes (by simp [hw]) (by simp) (by simp)
    · exact hs.goes (by simp [hw]) (by simp) (by simp)
  · rename_i hw
    cases h
    refine hs.goes (by simp [hw]) ?_ ?_ <;> split <;> simp
  · rename_i hw
    cases h
    exact hs.work (by simp [hw]) hbody rfl 0 take_zero_eq rfl
      (fun d hd hfile => ⟨hfile, by simp⟩) (by simp)
  · rename_i state hw
    cases h
    exact hs.finishes hw
  · cases h

/-- Bytes are read into the buffer. -/
theorem Stores.reads {consume deliver : Nat} (hs : Stores source s)
    (h : workerStep source s (.read consume deliver) = some t) : Stores source t := by
  have hbody := workerStep_sameBody h
  simp only [workerStep] at h
  split at h
  · rename_i decoder hw
    split at h <;> cases h
    refine hs.work (by simp [hw]) hbody rfl consume rfl rfl (fun d hd hfile => ?_) (by simp)
    obtain rfl := Option.some.inj hd
    refine ⟨hfile, fun _ => ?_⟩
    obtain ⟨rest, hrest⟩ := hfile
    simp only at hrest ⊢
    rw [← hrest, List.drop_left]
    exact (List.prefix_append_right_inj _).mpr (List.take_prefix _ _)
  · cases h

/-- The reader comes to its end. -/
theorem Stores.readsEnd (hs : Stores source s) (hpipes : Pipes s) {consume : Nat}
    (h : workerStep source s (.readEnd consume) = some t) : Stores source t := by
  have hbody := workerStep_sameBody h
  simp only [workerStep] at h
  split at h
  · rename_i decoder hw
    split at h <;> cases h
    rename_i hcond
    have hlive : s.worker ≠ .ended := by simp [hw]
    refine hs.work hlive hbody rfl consume rfl rfl (fun d hd hfile => ⟨hfile, by simp⟩)
      (fun _ => ⟨decoder, rfl, ?_, ?_, fun hto => ?_⟩)
    · have hprefix := (hs.stored decoder rfl).trans
        (decoder.grows s.consumed (s.unread.take consume))
      exact hprefix.eq_of_length hcond.2
    · cases heof : State.eof { s with
          consumed := s.consumed ++ s.unread.take consume, unread := s.unread.drop consume }
      · exact .inr (heof ▸ hcond.1)
      · exact .inl (heof ▸ hcond.1)
    -- the decoder has seen the end of the pipe: the body closed it, or its tap is gone
    · have heof : State.eof { s with
          consumed := s.consumed ++ s.unread.take consume
          unread := s.unread.drop consume } = true := by
        by_contra hne
        rw [Bool.not_eq_true] at hne
        have hends := hcond.1
        rw [hne, hto] at hends
        cases hends
      simp only [State.eof, Bool.and_eq_true, List.isEmpty_iff] at heof
      rcases htap : s.tap with _ | ⟨_ | _⟩
      · have hr := (hs.dropped (.inl htap)).resolve_right hlive
        exact .inr ((hs.undecided hlive).resolve_left hr)
      · have hclosed := hpipes.closed htap
        exact .inl ⟨hclosed.1, hclosed.2, heof.1⟩
      · simp [htap] at heof
  · cases h

/-- The budget grants the bytes, or refuses them. -/
theorem Stores.reserves {granted : Bool} (hs : Stores source s)
    (h : workerStep source s (.reserve granted) = some t) : Stores source t := by
  simp only [workerStep] at h
  split at h
  · rename_i hw
    split at h
    · cases h
      exact hs.goes (by simp [hw]) (by simp) (by simp)
    · split at h <;> cases h
      · exact hs.goes (by simp [hw]) (by simp) (fun _ => .inl hw)
      · exact ⟨hs.split, hs.stored, by simp, by simp, fun _ => .inr rfl, by simp⟩
  · cases h

/-- The buffer is written. -/
theorem Stores.writes (hs : Stores source s)
    (h : workerStep source s .wrote = some t) : Stores source t := by
  have hbody := workerStep_sameBody h
  simp only [workerStep] at h
  split at h
  · rename_i hw
    cases h
    refine hs.work (by simp [hw]) hbody rfl 0 take_zero_eq rfl (fun d hd _ => ⟨?_, by simp⟩)
      (by simp)
    exact hs.buffered d hd (.inr hw)
  · cases h

/-- A part of the buffer is written. -/
theorem Stores.writesSome {count : Nat} (hs : Stores source s)
    (h : workerStep source s (.writeError count) = some t) : Stores source t := by
  have hbody := workerStep_sameBody h
  simp only [workerStep] at h
  split at h
  · rename_i hw
    cases h
    refine hs.work (by simp [hw]) hbody rfl 0 take_zero_eq rfl (fun d hd _ => ⟨?_, by simp⟩)
      (by simp)
    refine List.IsPrefix.trans ?_ (hs.buffered d hd (.inr hw))
    exact (List.prefix_append_right_inj _).mpr (List.take_prefix _ _)
  · cases h

theorem Stores.worker {event : Event} (hpipes : Pipes s) (hs : Stores source s)
    (h : workerStep source s event = some t) : Stores source t := by
  have hbody := workerStep_sameBody h
  cases event with
  | work => exact hs.works h
  | read consume deliver => exact hs.reads h
  | readEnd consume => exact hs.readsEnd hpipes h
  | readError consume =>
      simp only [workerStep] at h
      split at h
      · rename_i hw
        cases h
        exact hs.work (by simp [hw]) hbody rfl consume rfl rfl
          (fun d hd hfile => ⟨hfile, by simp⟩) (by simp)
      · cases h
  | reserve granted => exact hs.reserves h
  | wrote => exact hs.writes h
  | writeError count => exact hs.writesSome h
  | stopWorker =>
      simp only [workerStep] at h
      split at h
      · rename_i hcond
        cases h
        refine hs.goes ?_ (by simp) (by simp)
        rcases hcond.2 with hw | hw | hw <;> simp [hw]
      · cases h
  | _ => simp [workerStep] at h

end Worker

theorem Stores.step {source : Option Decoder} {s t : State} {event : Event}
    (hpipes : Pipes s) (hs : Stores source s) (h : StepCases source s event t) :
    Stores source t := by
  cases h with
  | poll hpc =>
      refine hs.move rfl rfl rfl rfl rfl rfl rfl rfl rfl id fun after hclose => ?_
      cases hp : s.pending <;> simp [hp] at hclose
  | inner hpc hinner =>
      cases event <;> simp only [innerStep, reduceCtorEq] at hinner
      case innerPending =>
        split at hinner <;> cases hinner
        exact hs.move rfl rfl rfl rfl rfl rfl rfl rfl rfl id (by simp)
      case innerFrame frame endOfStream =>
        split at hinner <;> cases hinner
        rename_i hstreaming
        refine hs.frame hs.split rfl rfl rfl rfl (.inl rfl)
          (fun h => hs.dropped (.inl (h.resolve_right (by simp)))) (fun hfull => ?_)
        have := hfull.ended
        rw [hstreaming] at this
        cases this
      case innerError =>
        split at hinner <;> cases hinner
        rename_i hstreaming
        exact Stores.takeTap (t := { s with inner := .failed }) hs rfl rfl rfl rfl rfl rfl rfl
          rfl rfl (by simp [hstreaming, Inner.isEndStream]) _
      case innerDone =>
        split at hinner
        · cases hinner
        · split at hinner <;> cases hinner
          · exact hs.move rfl rfl rfl rfl rfl rfl rfl rfl rfl (fun _ => rfl)
              (by simp [After.next, After.pc])
          · exact hs.close (fun _ => rfl) (by simp)
  | endOfStream hinner =>
      exact hs.frame hs.split rfl rfl rfl rfl (.inl rfl) hs.dropped
        (·.congr rfl rfl rfl fun _ => rfl)
  | body hbody => exact hs.body hbody
  | put hpc htap hput =>
      cases event <;> simp only [putStep, reduceCtorEq] at hput
      case accept count =>
        split at hput <;> cases hput
        rename_i hcond
        refine hs.frame ?_ rfl rfl rfl rfl (.inl rfl)
          (fun h => absurd (h.resolve_right (by simp)) (by simp [htap])) (fun hfull => ?_)
        · simp [hs.split]
        · -- nothing is left to accept of a full body
          have hfed := hpipes.fed (by simp [htap])
          rw [hfull.accepted] at hfed
          have hnil := List.append_right_eq_self.mp hfed
          simp only [hnil, List.take_nil, List.length_nil] at hcond
          omega
      case full =>
        cases hput
        exact hs.move rfl rfl rfl rfl rfl rfl rfl rfl rfl id (by simp)
      case refuse =>
        cases hput
        exact hs.takeTap rfl rfl rfl rfl rfl rfl rfl rfl rfl id _
  | dropBody hpc => exact hs.takeTap rfl rfl rfl rfl rfl rfl rfl rfl rfl id _
  | cancel =>
      exact hs.frame hs.split rfl rfl rfl rfl (.inl rfl) hs.dropped (·.congr rfl rfl rfl id)
  | work hwork => exact hs.worker hpipes hwork

/-! ## Every run -/

/-- The invariant of the tee. -/
structure Good (source : Option Decoder) (s : State) : Prop where
  forwards : Forwards s
  pipes : Pipes s
  stores : Stores source s

theorem good_start (source : Option Decoder) (recorded : Bool) :
    Good source (start recorded) where
  forwards := ⟨rfl, trivial, fun _ => rfl, ⟨[], rfl, .inl rfl⟩⟩
  pipes := by
    refine ⟨fun _ => rfl, List.prefix_refl _, fun _ _ => rfl, ?_⟩
    cases recorded <;> simp [start]
  stores := by
    refine ⟨rfl, fun d _ => List.nil_prefix, fun d _ h => ?_, fun _ => .inl rfl, fun h => ?_,
      fun h => ?_⟩
    · cases recorded <;> simp [start] at h
    · cases recorded <;> simp [start] at h ⊢
    · cases recorded <;> simp [start] at h

theorem good_of_reachable {codecs : Codecs} {encoding : Str} {recorded : Bool} {s : State}
    (h : (machine codecs encoding recorded).Reachable s) : Good (codecs.source encoding) s :=
  h.invariant (good_start _ recorded) fun hs _ hstep =>
    have hcases := step_cases hstep
    ⟨hs.forwards.step hcases, hs.pipes.step hs.forwards hcases,
      hs.stores.step hs.pipes hcases⟩

/-- A result that is not "recording" is final. -/
theorem result_final {source : Option Decoder} {s t : State} {event : Event}
    (hs : Good source s) (h : StepCases source s event t) (hne : s.result ≠ .recording) :
    t.result = s.result := by
  have hfinish : ∀ state, s.result.finish state = s.result := fun state => if_neg hne
  have htake : ∀ (u : State) after, (takeTap u after).result = u.result := by
    intro u after
    rw [takeTap]
    split <;> rfl
  cases h with
  | inner _ hinner =>
      cases event <;> simp only [innerStep, reduceCtorEq] at hinner
      case innerPending => split at hinner <;> cases hinner; rfl
      case innerFrame => split at hinner <;> cases hinner; rfl
      case innerError => split at hinner <;> cases hinner; exact htake _ _
      case innerDone =>
        split at hinner
        · cases hinner
        · split at hinner <;> cases hinner <;> rfl
  | body hbody =>
      rw [bodyStep] at hbody
      repeat' split at hbody
      all_goals cases hbody
      all_goals first
        | rfl
        | exact htake _ _
        | exact hfinish _
  | put _ _ hput =>
      cases event <;> simp only [putStep, reduceCtorEq] at hput
      case accept => split at hput <;> cases hput; rfl
      case full => cases hput; rfl
      case refuse => cases hput; exact htake _ _
  | dropBody => exact htake _ _
  | work hwork =>
      by_cases hended : s.worker = .ended
      · -- nothing is left to do
        cases event <;> simp [workerStep, hended] at hwork
      · have hpart := (hs.stores.undecided hended).resolve_left hne
        cases event <;> simp only [workerStep, reduceCtorEq] at hwork
        all_goals
          repeat' split at hwork
          all_goals cases hwork
          all_goals first
            | rfl
            | exact hfinish _
            | exact hpart.symm
  | _ => rfl

/-- **The tee is transparent and does not over-claim.** In every reachable state:
the frames yielded and the pending one are the inner body's frames, in order, and after
them the body yields nothing but the inner error or end; the pipe has accepted a prefix of
the data frames; a result other than "recording" is final; and a complete result means
that the whole output of the bytes the decoder consumed is stored, where
* without an encoding these bytes are all the data frames of a body that has ended, and
  are what is recorded;
* for gzip they are all the data frames of a body that has ended;
* for deflate and br they are accepted bytes after which the decoder reported its end. -/
theorem tee_is_transparent {codecs : Codecs} {encoding : Str} {recorded : Bool} {s : State}
    (h : (machine codecs encoding recorded).Reachable s) :
    (s.frames = delivered s.out ++ s.pending.toList ∧
      ∃ tail, s.out = (delivered s.out).map .frame ++ tail ∧
        (tail = [] ∨ s.pending = none ∧
          (tail = [.error] ∧ s.inner = .failed ∨ tail = [.done] ∧ s.inner = .ended))) ∧
    s.accepted <+: s.data ∧
    (∀ event t, (machine codecs encoding recorded).step s event = some t →
      s.result ≠ .recording → t.result = s.result) ∧
    (s.result = .complete →
      ((encoding = [] ∨ encoding = "identity".toList) ∧ s.inner.isEndStream = true ∧
        s.accepted = s.data ∧ s.file = s.data) ∨
      (encoding = "gzip".toList ∧ s.inner.isEndStream = true ∧ s.accepted = s.data ∧
        s.file = codecs.gzip.output s.accepted) ∨
      ∃ decoder, (encoding = "deflate".toList ∧ decoder = codecs.deflate ∨
          encoding = "br".toList ∧ decoder = codecs.br) ∧
        s.consumed <+: s.accepted ∧ s.file = decoder.output s.consumed ∧
        (decoder.ends s.consumed true = true ∨ decoder.ends s.consumed false = true)) := by
  have hgood := good_of_reachable h
  refine ⟨⟨hgood.forwards.frames, hgood.forwards.finished⟩, hgood.pipes.accepted,
    fun event t hstep hne => result_final hgood (step_cases hstep) hne, fun hcomplete => ?_⟩
  obtain ⟨decoder, hsource, hc⟩ := hgood.stores.completes (.inr hcomplete)
  have hfull : (∀ consumed, decoder.ends consumed false = false) →
      s.inner.isEndStream = true ∧ s.accepted = s.data ∧ s.consumed = s.accepted := by
    intro hto
    have hf := (hc.full hto).resolve_right (by simp [hcomplete])
    refine ⟨hf.ended, hf.accepted, ?_⟩
    rw [hgood.stores.split, hf.unread, List.append_nil]
  rw [Option.mem_def, Codecs.source] at hsource
  split at hsource
  · rename_i henc
    obtain rfl := Option.some.inj hsource
    obtain ⟨hend, hall, hread⟩ := hfull fun _ => rfl
    refine .inl ⟨henc, hend, hall, ?_⟩
    rw [hc.stored, hread, hall]
    rfl
  · split at hsource
    · rename_i henc
      obtain rfl := Option.some.inj hsource
      obtain ⟨hend, hall, hread⟩ := hfull codecs.gzip_to_end
      exact .inr (.inl ⟨henc, hend, hall, hread ▸ hc.stored⟩)
    · refine .inr (.inr ⟨decoder, ?_, ⟨_, hgood.stores.split.symm⟩, hc.stored, hc.ends⟩)
      split at hsource
      · exact .inl ⟨‹_›, (Option.some.inj hsource).symm⟩
      · split at hsource
        · exact .inr ⟨‹_›, (Option.some.inj hsource).symm⟩
        · cases hsource

/-- The bytes of an empty zlib stream. -/
def emptyZlib : List UInt8 := [0x78, 0x9c, 0x03, 0x00, 0x00, 0x00, 0x00, 0x01]

/-- Codecs that know the empty zlib stream: it decodes to nothing and ends there. -/
def emptyZlibCodecs : Codecs where
  gzip := ⟨fun _ => [], fun _ _ => false, fun _ _ => List.prefix_refl _⟩
  deflate := ⟨fun _ => [], fun consumed _ => consumed == emptyZlib, fun _ _ => List.prefix_refl _⟩
  br := ⟨fun _ => [], fun _ _ => false, fun _ _ => List.prefix_refl _⟩
  gzip_to_end _ := rfl

/-- Two bytes in one frame, accepted one at a time with a `Pending` between them, and the
end of the body, which waits for the worker. -/
def recordedInPieces : List Event :=
  [.poll, .innerFrame (.data [1, 2]) false, .go, .accept 1, .go, .full, .work, .work,
    .read 1 1, .reserve true, .wrote, .work, .poll, .go, .accept 1, .go, .go, .go, .poll,
    .innerDone, .go, .work, .read 1 1, .reserve true, .wrote, .work, .work, .readEnd 0, .work,
    .poll, .innerDone, .go, .go, .go]

theorem recordedInPieces_transparent :
    let s := ((machine emptyZlibCodecs [] true).run recordedInPieces).get (by decide)
    s.result = .complete ∧ s.out = [.frame (.data [1, 2]), .done] ∧
      s.frames = delivered s.out ++ s.pending.toList ∧ s.accepted <+: s.data :=
  have h := tee_is_transparent (Machine.reachable_get
    (m := machine emptyZlibCodecs [] true) recordedInPieces (by decide))
  ⟨by decide, by decide, h.1.1, h.2.1⟩

/-- A deflate body whose compressed stream ends before its last data frame. -/
def trailingDeflate : List Event :=
  [.poll, .innerFrame (.data emptyZlib) false, .go, .accept 8, .go, .go, .go, .work, .work,
    .readEnd 8, .work, .poll, .innerFrame (.data [0x41]) true, .go, .refuse, .go, .go, .go, .go]

/-- After `trailingDeflate` the result is complete and the pipe has refused a data byte. -/
theorem complete_without_last_byte :
    ¬ ∀ (codecs : Codecs) (encoding : Str) (s : State),
      (machine codecs encoding true).Reachable s → s.result = .complete →
      s.accepted = s.data := by
  intro h
  have hall := h emptyZlibCodecs "deflate".toList _
    (Machine.reachable_get trailingDeflate (by decide)) (by decide)
  exact absurd hall (by decide)

end SippinSoda.Tee
