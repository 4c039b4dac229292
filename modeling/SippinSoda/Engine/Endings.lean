import SippinSoda.Engine.Announcements
import SippinSoda.Engine.CaptureRing
import SippinSoda.Lib.Ledger

/-!
# No capture is left pending

Whoever works on an exchange finishes it when its transfer ends, and many ways lead out without
that: a future is dropped at an await, a connection is aborted, a body is never read to its end.
The drop of the last reference finishes what is still pending.

* **Open** — the exchange has not been dropped, or its drop has yet to finish it;
* **drops** — the events of dropped exchanges, which end: each of them lowers `Engine.undone`;
* **no_capture_is_left_pending** — a pending capture has a holder or a drop to come, and without
  holders the drops end every capture.
-/

namespace SippinSoda

/-- What the drop of an exchange says. -/
def interrupted : String := "Transfer interrupted, cancelled or timed out."

/-! ## Captures that stay pending -/

/-- A capture that is pending was pending before, and nobody has finished it. -/
theorem Capture.apply_pending {c : Capture} {now : Nat} {change : Change}
    (h : (c.apply now change).phase = .pending) :
    c.phase = .pending ∧ ∀ started error, change ≠ .finish started error := by
  by_cases hphase : c.phase = .pending
  · refine ⟨hphase, fun started error heq => ?_⟩
    subst heq
    rw [Capture.apply, if_neg (not_not.mpr hphase)] at h
    cases error <;> cases h
  · have hends := Capture.apply_endsAs hphase now change
    exact absurd (hends.phase.symm.trans h) hphase

/-! ## Exchanges that can still end their captures -/

/-- The exchange has not been dropped, or its drop has yet to finish it. -/
def Begun.Open (x : Begun) : Prop :=
  x.dropped = false ∨ Errand.change (.finish x.started (some interrupted)) ∈ x.todo

/-- An exchange stays open until its drop finishes it. -/
theorem Begun.Open.became {s : Engine} {sec : Section} {x x' : Begun} (h : x.Open)
    (hbecame : Begun.Became s sec x x')
    (hkeeps : ∀ started error, sec ≠ .update x.id (.finish started error)) : x'.Open := by
  cases hbecame with
  | stays => exact h
  | drops => exact .inr List.mem_cons_self
  | goes htodo hsec =>
      rcases h with halive | hfinish
      · exact .inl halive
      · rw [htodo] at hfinish
        rcases List.mem_cons.mp hfinish with rfl | hfinish
        · exact absurd hsec (hkeeps _ _)
        · exact .inr hfinish

/-- Every pending capture has an exchange that can end it; and all that drops do is to finish
their exchanges. -/
structure Engine.Ending (s : Engine) : Prop where
  opened : ∀ c ∈ s.shared.traffic, c.phase = .pending → ∃ x ∈ s.exchanges, x.id = c.id ∧ x.Open
  finishing : ∀ x ∈ s.exchanges, ∀ errand ∈ x.todo,
    errand = .change (.finish x.started (some interrupted)) ∨ errand = .announce

theorem Engine.Ending.step {crypto : Crypto} {s s' : Engine} {e : Event}
    (hordered : s.shared.Ordered) (h : s.Ending) (hstep : s.step crypto e = some s') :
    s'.Ending := by
  obtain ⟨sec, p, hmoved, hshared, hparties⟩ := Engine.step_cases hstep
  refine ⟨fun c' hc' hpending => ?_, fun x' hx' errand herrand => ?_⟩
  · rw [hparties]
    rw [hshared] at hc'
    -- an exchange that could end the capture still can, unless the section finishes it
    have hstays (c : Capture) (hc : c ∈ s.shared.traffic) (hphase : c.phase = .pending)
        (hkeeps : ∀ started error, sec ≠ .update c.id (.finish started error)) :
        ∃ x ∈ (p.log s.shared sec).exchanges, x.id = c.id ∧ x.Open := by
      obtain ⟨x, hx, hid, hopen⟩ := h.opened c hc hphase
      obtain ⟨x', hx', hbecame⟩ := hmoved.became_exchange hx
      exact ⟨x', hx', hbecame.id.trans hid, hopen.became hbecame (hid ▸ hkeeps)⟩
    rcases hordered.mem_apply hc' with ⟨hc, hkeeps, -⟩ | ⟨c, hc, change, hsec, rfl⟩ |
      ⟨c, hc, task, status, hsec, rfl⟩ | ⟨request, destination, clientProfileId, replayOf, rfl, rfl⟩
    · exact hstays c' hc hpending fun started error => hkeeps _
    · obtain ⟨hphase, hchange⟩ := Capture.apply_pending hpending
      rw [Capture.apply_id]
      refine hstays c hc hphase fun started error heq => ?_
      exact hchange started error (Section.update.inj (hsec.symm.trans heq)).2
    · refine hstays c hc hpending fun started error heq => ?_
      cases hsec.symm.trans heq
    · exact ⟨_, List.mem_append_right _ (List.mem_singleton_self _), rfl, .inl rfl⟩
  · rw [hparties] at hx'
    rcases hmoved.came_exchange hx' with ⟨x, hx, hbecame⟩ | ⟨-, htodo⟩
    · cases hbecame with
      | stays => exact h.finishing _ hx errand herrand
      | drops =>
          rcases List.mem_cons.mp herrand with rfl | herrand
          · exact .inl rfl
          · exact .inr (List.mem_singleton.mp herrand)
      | goes htodo =>
          refine h.finishing x hx errand ?_
          rw [htodo]
          exact List.mem_cons_of_mem _ herrand
    · rw [htodo] at herrand
      cases herrand

theorem Engine.ending {crypto : Crypto} {s : Engine} (h : (engine crypto).Reachable s) :
    s.Ending := by
  refine h.invariant_along ⟨fun c hc => ?_, fun x hx => ?_⟩ fun hr ih _ hstep =>
    ih.step (consistent hr).ordered hstep
  · cases hc
  · cases hx

/-! ## Drops -/

/-- The drop of an exchange, and what it still has to do. -/
def Event.drops : Event → Bool
  | .dropExchange _ | .exchange _ => true
  | _ => false

/-- What is left to do for an exchange that nobody holds. -/
def Begun.undone (x : Begun) : Nat := (if x.dropped then 0 else 3) + x.todo.length

def Engine.undone (s : Engine) : Nat := Ledger.total Begun.undone s.exchanges

/-- What a drop, or one of its two steps, makes of the engine. -/
inductive Engine.Dropping (s : Engine) : Engine → Prop
  | drops {k x} : s.exchanges[k]? = some x → x.dropped = false → s.holds x.id = false →
      Dropping s { s with exchanges := s.exchanges.set k { x with
        dropped := true, todo := x.toExchange.finish (some interrupted) } }
  | goes {k x errand todo} : s.exchanges[k]? = some x → x.todo = errand :: todo →
      Dropping s { s with
        exchanges := s.exchanges.set k { x with todo := todo }
        shared := s.shared.apply s.clock (errand.section x.id) }

section Drops

variable {crypto : Crypto} {s s' : Engine} {e : Event}

theorem Engine.dropping_of_step (hstep : s.step crypto e = some s') (he : e.drops = true) :
    s.Dropping s' := by
  obtain ⟨⟨sec, p⟩, hmove, rfl⟩ := Option.map_eq_some_iff.mp hstep
  cases e with
  | dropExchange k =>
      have htask : s.taskStep crypto (.dropExchange k) = some (sec, p) := by
        unfold Engine.move at hmove
        rw [show s.lifecycle (.dropExchange k) = none from rfl] at hmove
        simp only at hmove
        split at hmove
        next step hsome => rw [hsome, hmove]
        next => cases hmove
      obtain ⟨x, hx, hrest⟩ := Option.bind_eq_some_iff.mp htask
      split at hrest
      · cases hrest
      next hfree =>
        cases hrest
        rw [Bool.or_eq_true, not_or, Bool.not_eq_true, Bool.not_eq_true] at hfree
        exact .drops hx hfree.1 hfree.2
  | exchange k =>
      cases Engine.moved_of_move hmove with
      | lifecycle hlife => cases hlife
      | @exchange _ x errand todo hx htodo => cases errand <;> exact .goes hx htodo
  | _ => cases he

/-- Drops take nothing from anybody. -/
theorem Engine.Dropping.holds (h : s.Dropping s') (id : Nat) : s'.holds id = s.holds id := by
  cases h <;> rfl

theorem Engine.undone_set {k : Nat} {x y : Begun} (hx : s.exchanges[k]? = some x)
    (hless : y.undone < x.undone) :
    Ledger.total Begun.undone (s.exchanges.set k y) < s.undone := by
  have htotal := Ledger.total_set (f := Begun.undone) hx y
  unfold Engine.undone
  omega

/-- Every step of a drop leaves less to do. -/
theorem Engine.Dropping.undone_lt (h : s.Dropping s') : s'.undone < s.undone := by
  cases h with
  | @drops k x hx hdropped hheld =>
      refine Engine.undone_set hx ?_
      show 2 < (if x.dropped then 0 else 3) + x.todo.length
      rw [hdropped]
      exact Nat.le_add_right 3 _
  | @goes k x errand todo hx htodo =>
      refine Engine.undone_set hx ?_
      unfold Begun.undone
      rw [htodo, List.length_cons]
      exact Nat.lt_succ_self _

/-- Whatever is left to do for an exchange that nobody holds can be done. -/
theorem Engine.drops_enabled {k : Nat} {x : Begun} (hx : s.exchanges[k]? = some x)
    (hheld : s.holds x.id = false) (hleft : x.dropped = false ∨ x.todo ≠ []) :
    (s.step crypto (.dropExchange k)).isSome = true ∨
      (s.step crypto (.exchange k)).isSome = true := by
  by_cases hdropped : x.dropped = false
  · refine .inl ?_
    simp [Engine.step, Engine.move, Engine.lifecycle, Engine.taskStep, hx, hdropped, hheld]
  · obtain ⟨errand, todo, htodo⟩ := List.exists_cons_of_ne_nil (hleft.resolve_left hdropped)
    refine .inr ?_
    simp [Engine.step, Engine.move, Engine.lifecycle, Engine.taskStep, hx, htodo]

end Drops

/-! ## How a capture ends without its exchange -/

def Capture.Interrupted (c : Capture) : Prop := c.phase = .error ∧ c.error = some interrupted

/-- The capture is as it was, or its exchange has been dropped while it was pending. -/
structure Capture.Cut (c' c : Capture) : Prop where
  id : c'.id = c.id
  pending : c.phase = .pending → c'.phase = .pending ∨ c'.Interrupted
  ended : c.phase ≠ .pending → c'.EndsAs c

theorem Capture.Cut.refl (c : Capture) : c.Cut c := ⟨rfl, .inl, fun _ => ⟨rfl, rfl, rfl⟩⟩

theorem Capture.Cut.trans {a b c : Capture} (h : a.Cut b) (h' : b.Cut c) : a.Cut c := by
  refine ⟨h.id.trans h'.id, fun hphase => ?_, fun hphase => ?_⟩
  · rcases h'.pending hphase with hpending | ⟨herror, hmessage⟩
    · exact h.pending hpending
    · have hends := h.ended (by rw [herror]; simp)
      exact .inr ⟨hends.phase.trans herror, hends.error.trans hmessage⟩
  · have hends' := h'.ended hphase
    have hends := h.ended (by rw [hends'.phase]; exact hphase)
    exact ⟨hends.phase.trans hends'.phase, hends.error.trans hends'.error,
      hends.durationMs.trans hends'.durationMs⟩

/-- The end a drop puts to a capture. -/
theorem Capture.cut_finish (c : Capture) (now started : Nat) :
    (c.apply now (.finish started (some interrupted))).Cut c := by
  refine ⟨Capture.apply_id .., fun hphase => .inr ?_, fun hphase => ?_⟩
  · rw [Capture.apply, if_neg (not_not.mpr hphase)]
    exact ⟨rfl, rfl⟩
  · exact Capture.apply_endsAs hphase now _

/-- No capture comes or goes with a drop, and those that were pending are interrupted at most. -/
theorem Engine.Dropping.cut {s s' : Engine} (hordered : s.shared.Ordered) (hs : s.Ending)
    (h : s.Dropping s') :
    s'.shared.traffic.map Capture.id = s.shared.traffic.map Capture.id ∧
      ∀ c' ∈ s'.shared.traffic, ∃ c ∈ s.shared.traffic, c'.Cut c := by
  cases h with
  | drops => exact ⟨rfl, fun c hc => ⟨c, hc, .refl c⟩⟩
  | @goes k x errand todo hx htodo =>
      have herrand := hs.finishing x (List.mem_of_getElem? hx) errand (by rw [htodo]; simp)
      rcases herrand with rfl | rfl
      · refine ⟨State.update_ids fun c => c.apply_id _ _, fun c' hc' => ?_⟩
        rcases hordered.mem_apply hc' with ⟨hc, -⟩ | ⟨c, hc, change, hsec, rfl⟩ |
          ⟨c, hc, task, status, hsec, -⟩ |
          ⟨request, destination, clientProfileId, replayOf, hsec, -⟩
        · exact ⟨c', hc, .refl c'⟩
        · obtain ⟨-, rfl⟩ := Section.update.inj hsec
          exact ⟨c, hc, c.cut_finish _ _⟩
        · cases hsec
        · cases hsec
      · exact ⟨rfl, fun c hc => ⟨c, hc, .refl c⟩⟩

/-- What a run of drops leaves. -/
structure Engine.DroppedTo (s : Engine) (steps : Nat) (s' : Engine) : Prop where
  holds : ∀ id, s'.holds id = s.holds id
  /-- Every step has left less to do. -/
  undone : steps + s'.undone ≤ s.undone
  ids : s'.shared.traffic.map Capture.id = s.shared.traffic.map Capture.id
  cut : ∀ c' ∈ s'.shared.traffic, ∃ c ∈ s.shared.traffic, c'.Cut c

/-- **Runs of drops**, by induction on the run. -/
theorem Engine.droppedTo_of_run {crypto : Crypto} {es : List Event} :
    ∀ {s s' : Engine}, (engine crypto).Reachable s → (∀ e ∈ es, e.drops = true) →
      (engine crypto).runFrom s es = some s' → s.DroppedTo es.length s' := by
  induction es with
  | nil =>
      intro s s' _ _ hrun
      cases hrun
      exact ⟨fun id => rfl, Nat.le_of_eq (Nat.zero_add _), rfl, fun c hc => ⟨c, hc, .refl c⟩⟩
  | cons e es ih =>
      intro s s' hs hes hrun
      obtain ⟨u, hstep, hrest⟩ := Option.bind_eq_some_iff.mp hrun
      have hdropping := Engine.dropping_of_step hstep (hes e List.mem_cons_self)
      have hlater :=
        ih (.step hs trivial hstep) (fun e he => hes e (List.mem_cons_of_mem _ he)) hrest
      obtain ⟨hids, hcut⟩ := hdropping.cut (Engine.consistent hs).ordered (Engine.ending hs)
      refine ⟨fun id => (hlater.holds id).trans (hdropping.holds id), ?_, hlater.ids.trans hids, ?_⟩
      · have hlt := hdropping.undone_lt
        have hle := hlater.undone
        rw [List.length_cons]
        omega
      · intro c' hc'
        obtain ⟨d, hd, hcut'⟩ := hlater.cut c' hc'
        obtain ⟨c, hc, hcut⟩ := hcut d hd
        exact ⟨c, hc, hcut'.trans hcut⟩

/-! ## The result -/

/-- With something left to do for an exchange that nobody holds, a drop can go on. -/
theorem Engine.drops_of_undone {crypto : Crypto} {s : Engine} (hfree : ∀ id, s.holds id = false)
    (h : 0 < s.undone) : ∃ e, e.drops = true ∧ (s.step crypto e).isSome = true := by
  by_contra hnone
  have hidle : ∀ x ∈ s.exchanges, x.undone = 0 := by
    intro x hx
    obtain ⟨k, hk⟩ := List.mem_iff_getElem?.mp hx
    by_contra hpositive
    have hleft : x.dropped = false ∨ x.todo ≠ [] := by
      by_contra hdone
      rw [not_or, Bool.not_eq_false, not_not] at hdone
      apply hpositive
      unfold Begun.undone
      rw [hdone.1, hdone.2]
      rfl
    have henabled : (s.step crypto (.dropExchange k)).isSome = true ∨
        (s.step crypto (.exchange k)).isSome = true := Engine.drops_enabled hk (hfree x.id) hleft
    rcases henabled with hsome | hsome
    · exact hnone ⟨_, rfl, hsome⟩
    · exact hnone ⟨_, rfl, hsome⟩
  have hzero : s.undone = 0 := Ledger.total_eq_zero hidle
  omega

/-- **No capture is left pending.** A pending capture has a holder of its exchange, or its drop can
go on. When nobody holds an exchange any more, the drops end, in whatever order they come; then
every capture has ended, those that were pending as interrupted. -/
theorem no_capture_is_left_pending {crypto : Crypto} {s : Engine}
    (h : (engine crypto).Reachable s) :
    (∀ c ∈ s.shared.traffic, c.phase = .pending → s.holds c.id = true ∨
      ∃ k x, s.exchanges[k]? = some x ∧ x.id = c.id ∧
        ((s.step crypto (.dropExchange k)).isSome = true ∨
          (s.step crypto (.exchange k)).isSome = true)) ∧
    ((∀ id, s.holds id = false) → ∀ es s', (∀ e ∈ es, e.drops = true) →
      (engine crypto).runFrom s es = some s' →
      es.length + s'.undone ≤ s.undone ∧
      (0 < s'.undone → ∃ e, e.drops = true ∧ (s'.step crypto e).isSome = true) ∧
      s'.shared.traffic.map Capture.id = s.shared.traffic.map Capture.id ∧
      (s'.undone = 0 → ∀ c' ∈ s'.shared.traffic, c'.phase ≠ .pending ∧
        ∃ c ∈ s.shared.traffic, c'.id = c.id ∧ (c.phase = .pending → c'.Interrupted) ∧
          (c.phase ≠ .pending → c'.EndsAs c))) := by
  refine ⟨fun c hc hpending => ?_, fun hfree es s' hes hrun => ?_⟩
  · by_cases hheld : s.holds c.id = true
    · exact .inl hheld
    · obtain ⟨x, hx, hid, hopen⟩ := (Engine.ending h).opened c hc hpending
      obtain ⟨k, hk⟩ := List.mem_iff_getElem?.mp hx
      refine .inr ⟨k, x, hk, hid, Engine.drops_enabled hk ?_ (hopen.imp_right List.ne_nil_of_mem)⟩
      rw [hid]
      exact Bool.eq_false_iff.mpr hheld
  · have hto := Engine.droppedTo_of_run h hes hrun
    have hfree' : ∀ id, s'.holds id = false := fun id => (hto.holds id).trans (hfree id)
    refine ⟨hto.undone, Engine.drops_of_undone hfree', hto.ids, fun hzero c' hc' => ?_⟩
    have hended : c'.phase ≠ .pending := by
      intro hpending
      have hs' := h.runFrom (Machine.meets_true _ _) hrun
      obtain ⟨x, hx, -, hopen⟩ := (Engine.ending hs').opened c' hc' hpending
      obtain ⟨k, hk⟩ := List.mem_iff_getElem?.mp hx
      have hundone : x.undone ≤ s'.undone := Ledger.le_total hk
      unfold Begun.undone at hundone
      rcases hopen with halive | hfinish
      · rw [halive, if_neg Bool.false_ne_true] at hundone
        omega
      · have hpos := List.length_pos_of_mem hfinish
        omega
    obtain ⟨c, hc, hcut⟩ := hto.cut c' hc'
    exact ⟨hended, c, hc, hcut.id, fun hpending => (hcut.pending hpending).resolve_left hended,
      hcut.ended⟩

/-- The proxy is stopped while a request waits for its upstream. -/
def stoppedMidway : List Event :=
  starting .default ++ [.accept] ++ answers 0 (untilSent (plainGet localhost)) ++
    [.stop, .shutdown, .task 0 .drop, .body 0 .drop, .drained, .joined]

/-- The drop of its exchange. -/
def droppedExchange : List Event := [.dropExchange 0, .exchange 0, .exchange 0]

theorem Parties.holds_of_over {p : Parties} (htasks : ∀ t ∈ p.tasks, t.over = true ∧ t.body = none)
    (hstores : p.stores = []) (id : Nat) : p.holds id = false := by
  by_contra hheld
  rcases Parties.holds_iff.mp (Bool.not_eq_false _ ▸ hheld) with ⟨t, ht, hheld⟩ | ⟨store, hstore, -⟩
  · obtain ⟨hover, hbody⟩ := htasks t ht
    rcases Task.holds_iff.mp hheld with ⟨x, op, todo, hpc, -⟩ | ⟨party, hparty, -⟩
    · cases hpc.symm.trans (Task.over_iff.mp hover)
    · cases hparty.symm.trans hbody
  · rw [hstores] at hstore
    cases hstore

theorem stopped_request_is_interrupted :
    ∃ s s', (engine .unused).run stoppedMidway = some s ∧
      (engine .unused).runFrom s droppedExchange = some s' ∧
      (s.shared.traffic.map Capture.phase) = [.pending] ∧
      ∀ c ∈ s'.shared.traffic, c.Interrupted := by
  have hmidway : ((engine .unused).run stoppedMidway).map (fun s =>
      (s.shared.traffic.map Capture.phase, s.tasks.all (fun t => t.over && t.body.isNone),
        s.stores.length)) = some ([.pending], true, 0) := by
    decide +kernel
  have hlater : ((engine .unused).run (stoppedMidway ++ droppedExchange)).map Engine.undone =
      some 0 := by
    decide +kernel
  obtain ⟨s, hrun, heq⟩ := Option.map_eq_some_iff.mp hmidway
  obtain ⟨s', hrun', hundone⟩ := Option.map_eq_some_iff.mp hlater
  obtain ⟨hphases, hrest⟩ := Prod.mk.inj heq
  obtain ⟨hover, hstores⟩ := Prod.mk.inj hrest
  have hdrops : (engine .unused).runFrom s droppedExchange = some s' := by
    rw [Machine.run, Machine.runFrom_append, show (engine .unused).runFrom _ _ = some s from hrun]
      at hrun'
    exact hrun'
  have hfree : ∀ id, s.holds id = false := by
    refine Parties.holds_of_over (fun t ht => ?_) (List.length_eq_zero_iff.mp hstores)
    have hgone := List.all_eq_true.mp hover t ht
    rw [Bool.and_eq_true, Option.isNone_iff_eq_none] at hgone
    exact hgone
  have hend := (no_capture_is_left_pending (Machine.reachable_of_run _ hrun)).2 hfree
    droppedExchange s' (by decide) hdrops
  refine ⟨s, s', hrun, hdrops, hphases, fun c' hc' => ?_⟩
  obtain ⟨-, c, hc, -, hinterrupted, -⟩ := hend.2.2.2 hundone c' hc'
  refine hinterrupted ?_
  have hphase := List.mem_map_of_mem (f := Capture.phase) hc
  rw [hphases] at hphase
  exact List.mem_singleton.mp hphase

end SippinSoda
