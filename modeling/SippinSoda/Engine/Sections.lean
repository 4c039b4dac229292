import SippinSoda.Engine.State

/-!
# What a critical section can do

Facts about one section, for any state it is applied to.

* **order** — the ids in `traffic` increase and are below `next_id`, so none is used twice;
* **captures** — where a capture found after a section comes from;
* **holdings** — a capture that leaves `traffic` takes its bodies, template and breakpoint
  with it, and which sections add one of these.
-/

namespace SippinSoda

/-! ## Updates -/

theorem mem_updateFirst {id : Nat} {f : Capture → Capture} {c' : Capture} :
    ∀ {cs : List Capture}, (cs.map Capture.id).Pairwise (· < ·) → c' ∈ updateFirst id f cs →
      (c' ∈ cs ∧ c'.id ≠ id) ∨ ∃ c ∈ cs, c.id = id ∧ c' = f c := by
  intro cs
  induction cs with
  | nil => exact fun _ h => absurd h List.not_mem_nil
  | cons c cs ih =>
      intro hsorted h
      obtain ⟨hlt, hsorted⟩ := List.pairwise_cons.mp hsorted
      rw [updateFirst] at h
      split at h
      next heq =>
        rcases List.mem_cons.mp h with rfl | h
        · exact .inr ⟨c, List.mem_cons_self, heq, rfl⟩
        · have : c.id < c'.id := hlt _ (List.mem_map_of_mem h)
          exact .inl ⟨List.mem_cons_of_mem _ h, by omega⟩
      next hne =>
        rcases List.mem_cons.mp h with rfl | h
        · exact .inl ⟨List.mem_cons_self, hne⟩
        · rcases ih hsorted h with ⟨hmem, hid⟩ | ⟨d, hmem, hd⟩
          · exact .inl ⟨List.mem_cons_of_mem _ hmem, hid⟩
          · exact .inr ⟨d, List.mem_cons_of_mem _ hmem, hd⟩

theorem map_id_updateFirst {id : Nat} {f : Capture → Capture} (hf : ∀ c, (f c).id = c.id)
    (cs : List Capture) : (updateFirst id f cs).map Capture.id = cs.map Capture.id := by
  induction cs with
  | nil => rfl
  | cons c cs ih =>
      rw [updateFirst]
      split
      · rw [List.map_cons, List.map_cons, hf]
      · rw [List.map_cons, List.map_cons, ih]

/-- No closure changes an id. -/
@[simp] theorem Capture.apply_id (now : Nat) (c : Capture) (change : Change) :
    (c.apply now change).id = c.id := by
  cases change <;> simp only [Capture.apply]
  split <;> rfl

/-- Nor a class. -/
@[simp] theorem Capture.apply_destinationClass (now : Nat) (c : Capture) (change : Change) :
    (c.apply now change).destinationClass = c.destinationClass := by
  cases change <;> simp only [Capture.apply]
  split <;> rfl

@[simp] theorem Capture.pause_id (status : Nat) (c : Capture) : (c.pause status).id = c.id := rfl

theorem State.retained_iff {s : State} {id : Nat} :
    s.Retained id ↔ id ∈ s.traffic.map Capture.id := by
  rw [State.Retained, List.mem_map]

@[simp] theorem State.update_ids {s : State} {id : Nat} {f : Capture → Capture}
    (hf : ∀ c, (f c).id = c.id) :
    (s.update id f).traffic.map Capture.id = s.traffic.map Capture.id :=
  map_id_updateFirst hf _

/-! ## Evictions -/

@[simp] theorem State.forget_traffic (s : State) (id : Nat) :
    (s.forget id).traffic = s.traffic := rfl

@[simp] theorem State.evict_traffic (s : State) : s.evict.traffic = s.traffic.tail := by
  rw [State.evict]
  split
  next h => rw [h, List.tail_nil, ← h]
  next h => rw [h, List.tail_cons]

@[simp] theorem State.evict_nextId (s : State) : s.evict.nextId = s.nextId := by
  rw [State.evict]
  split <;> rfl

@[simp] theorem State.evictMany_traffic (n : Nat) :
    ∀ s : State, (s.evictMany n).traffic = s.traffic.drop n := by
  induction n with
  | zero => exact fun s => rfl
  | succ n ih => exact fun s => by rw [State.evictMany, ih, evict_traffic, List.drop_tail]

@[simp] theorem State.evictMany_nextId (n : Nat) :
    ∀ s : State, (s.evictMany n).nextId = s.nextId := by
  induction n with
  | zero => exact fun s => rfl
  | succ n ih => exact fun s => by rw [State.evictMany, ih, evict_nextId]

theorem State.makeRoom_suffix (s : State) : s.makeRoom.traffic <:+ s.traffic := by
  rw [State.makeRoom]
  split
  · rw [evict_traffic]
    exact List.tail_suffix _
  · exact List.suffix_refl _

theorem State.begin_traffic (s : State) (now : Nat) (request : Request)
    (destination : DestinationClass) (clientProfileId : Option Str) (replayOf : Option Nat) :
    (s.begin now request destination clientProfileId replayOf).traffic =
      s.makeRoom.traffic ++
        [Capture.new now s.nextId request destination clientProfileId replayOf] := rfl

/-! ## Order -/

/-- The ids of the captures increase, and the next one is above them all. -/
structure State.Ordered (s : State) : Prop where
  increasing : (s.traffic.map Capture.id).Pairwise (· < ·)
  below : ∀ c ∈ s.traffic, c.id < s.nextId

/-- An order is kept by dropping captures. -/
theorem State.Ordered.suffix {s t : State} (h : s.Ordered)
    (hids : t.traffic.map Capture.id <:+ s.traffic.map Capture.id) (hnext : s.nextId ≤ t.nextId) :
    t.Ordered where
  increasing := h.increasing.sublist hids.sublist
  below c hc := by
    obtain ⟨d, hd, hid⟩ := List.mem_map.mp (hids.subset (List.mem_map_of_mem hc))
    have := h.below d hd
    omega

theorem State.Ordered.begin {s : State} (h : s.Ordered) (now : Nat) (request : Request)
    (destination : DestinationClass) (clientProfileId : Option Str) (replayOf : Option Nat) :
    (s.begin now request destination clientProfileId replayOf).Ordered := by
  have hold : ∀ c ∈ s.makeRoom.traffic, c.id < s.nextId := fun c hc =>
    h.below c (s.makeRoom_suffix.subset hc)
  constructor
  · rw [begin_traffic, List.map_append, List.pairwise_append]
    refine ⟨h.increasing.sublist (s.makeRoom_suffix.map _).sublist, List.pairwise_singleton _ _, ?_⟩
    intro a ha b hb
    obtain ⟨c, hc, rfl⟩ := List.mem_map.mp ha
    rw [List.map_singleton, List.mem_singleton] at hb
    exact hb ▸ hold c hc
  · intro c hc
    rw [begin_traffic] at hc
    show c.id < s.nextId + 1
    rcases List.mem_append.mp hc with hc | hc
    · exact Nat.lt_succ_of_lt (hold c hc)
    · rw [List.mem_singleton.mp hc]
      exact Nat.lt_succ_self _

/-- Every section keeps the order. -/
theorem State.Ordered.apply {s : State} (h : s.Ordered) (now : Nat) (sec : Section) :
    (s.apply now sec).Ordered := by
  cases sec with
  | begin request destination clientProfileId replayOf => exact h.begin ..
  | update id change =>
      refine h.suffix ?_ (Nat.le_refl _)
      simp only [State.apply, update_ids fun c => c.apply_id now change, List.suffix_refl]
  | openBreakpoint id task status =>
      refine h.suffix ?_ (Nat.le_refl _)
      show (s.update id (Capture.pause status)).traffic.map Capture.id <:+ _
      simp only [update_ids fun c => c.pause_id status, List.suffix_refl]
  | clear => exact h.suffix (List.nil_suffix ..) (Nat.le_refl _)
  | start settings address =>
      refine h.suffix (t := s.started settings address) ?_ ?_
      · exact (evictMany_traffic _ _ ▸ List.drop_suffix _ _ : _ <:+ s.traffic).map _
      · show s.nextId ≤ ((s.configured settings).evictMany _).nextId
        rw [evictMany_nextId]
        exact Nat.le_refl _
  | _ => exact h.suffix (List.suffix_refl _) (Nat.le_refl _)

/-! ## Captures -/

/-- A capture found after a section was there, was changed by it, or is new. -/
theorem State.Ordered.mem_apply {s : State} (h : s.Ordered) {now : Nat} {sec : Section}
    {c' : Capture} (hc : c' ∈ (s.apply now sec).traffic) :
    (c' ∈ s.traffic ∧ (∀ change, sec ≠ .update c'.id change) ∧
        ∀ task status, sec ≠ .openBreakpoint c'.id task status) ∨
      (∃ c ∈ s.traffic, ∃ change, sec = .update c.id change ∧ c' = c.apply now change) ∨
      (∃ c ∈ s.traffic, ∃ task status, sec = .openBreakpoint c.id task status ∧
        c' = c.pause status) ∨
      ∃ request destination clientProfileId replayOf,
        sec = .begin request destination clientProfileId replayOf ∧
        c' = Capture.new now s.nextId request destination clientProfileId replayOf := by
  cases sec with
  | begin request destination clientProfileId replayOf =>
      have hc : c' ∈ s.makeRoom.traffic ++ [Capture.new now s.nextId request destination
        clientProfileId replayOf] := hc
      rcases List.mem_append.mp hc with hc | hc
      · exact .inl ⟨s.makeRoom_suffix.subset hc, by simp, by simp⟩
      · exact .inr (.inr (.inr ⟨_, _, _, _, rfl, List.mem_singleton.mp hc⟩))
  | update id change =>
      rcases mem_updateFirst h.increasing hc with ⟨hmem, hid⟩ | ⟨c, hmem, rfl, rfl⟩
      · exact .inl ⟨hmem, fun _ heq => hid (Section.update.inj heq).1.symm, by simp⟩
      · exact .inr (.inl ⟨c, hmem, change, rfl, rfl⟩)
  | openBreakpoint id task status =>
      rcases mem_updateFirst h.increasing hc with ⟨hmem, hid⟩ | ⟨c, hmem, rfl, rfl⟩
      · exact .inl ⟨hmem, by simp, fun _ _ heq => hid (Section.openBreakpoint.inj heq).1.symm⟩
      · exact .inr (.inr (.inl ⟨c, hmem, task, status, rfl, rfl⟩))
  | clear => exact absurd hc List.not_mem_nil
  | start settings address =>
      refine .inl ⟨?_, by simp, by simp⟩
      have hc : c' ∈ (State.evictMany _ _).traffic := hc
      rw [evictMany_traffic] at hc
      exact List.mem_of_mem_drop hc
  | _ => exact .inl ⟨hc, by simp, by simp⟩

/-- No closure changes what a capture is a replay of. -/
@[simp] theorem Capture.apply_replayOf (now : Nat) (c : Capture) (change : Change) :
    (c.apply now change).replayOf = c.replayOf := by
  cases change <;> simp only [Capture.apply]
  split <;> rfl

/-- A capture that stays keeps its id, its class and what it replays; a new one has those of
the exchange it begins. -/
theorem State.Ordered.class_apply {s : State} (h : s.Ordered) {now : Nat} {sec : Section}
    {c' : Capture} (hc : c' ∈ (s.apply now sec).traffic) :
    (∃ c ∈ s.traffic, c.id = c'.id ∧ c.destinationClass = c'.destinationClass ∧
        c.replayOf = c'.replayOf) ∨
      ∃ request clientProfileId,
        sec = .begin request c'.destinationClass clientProfileId c'.replayOf ∧
        c'.id = s.nextId := by
  rcases h.mem_apply hc with ⟨hmem, -, -⟩ | ⟨c, hmem, change, -, rfl⟩ |
    ⟨c, hmem, task, status, -, rfl⟩ | ⟨request, destination, clientProfileId, replayOf, rfl, rfl⟩
  · exact .inl ⟨c', hmem, rfl, rfl, rfl⟩
  · exact .inl ⟨c, hmem, by simp, by simp, by simp⟩
  · exact .inl ⟨c, hmem, rfl, rfl, rfl⟩
  · exact .inr ⟨request, clientProfileId, rfl, rfl⟩

/-! ## Holdings -/

/-- Does the state hold a body, a replay template or a breakpoint for this id? -/
def State.Holds (s : State) (id : Nat) : Prop :=
  id ∈ s.requestBodies ∨ id ∈ s.responseBodies ∨ id ∈ s.breakpoints.map Prod.fst ∨
    id ∈ s.replayTemplates.map Prod.fst

theorem mem_map_without {α β : Type} [DecidableEq α] {map : List (α × β)} {key a : α} :
    a ∈ (without map key).map Prod.fst ↔ a ∈ map.map Prod.fst ∧ a ≠ key := by
  simp [without]

/-- What is forgotten is not held, and nothing else is touched. -/
theorem State.holds_forget {s : State} {id key : Nat} :
    (s.forget key).Holds id ↔ s.Holds id ∧ id ≠ key := by
  simp only [Holds, forget, mem_map_without, List.mem_filter, decide_eq_true_eq]
  tauto

/-- All that `t` holds, `s` holds. -/
structure State.Within (t s : State) : Prop where
  requestBodies : t.requestBodies ⊆ s.requestBodies
  responseBodies : t.responseBodies ⊆ s.responseBodies
  breakpoints : t.breakpoints ⊆ s.breakpoints
  replayTemplates : t.replayTemplates ⊆ s.replayTemplates

theorem State.Within.refl (s : State) : s.Within s :=
  ⟨fun _ h => h, fun _ h => h, fun _ h => h, fun _ h => h⟩

theorem State.Within.trans {s t u : State} (h : t.Within s) (h' : u.Within t) : u.Within s where
  requestBodies := fun _ hmem => h.requestBodies (h'.requestBodies hmem)
  responseBodies := fun _ hmem => h.responseBodies (h'.responseBodies hmem)
  breakpoints := fun _ hmem => h.breakpoints (h'.breakpoints hmem)
  replayTemplates := fun _ hmem => h.replayTemplates (h'.replayTemplates hmem)

theorem State.Within.holds {s t : State} (h : t.Within s) {id : Nat} (hid : t.Holds id) :
    s.Holds id :=
  Or.imp (fun hmem => h.requestBodies hmem) (Or.imp (fun hmem => h.responseBodies hmem)
    (Or.imp (fun hmem => (List.map_subset _ h.breakpoints) hmem)
      fun hmem => (List.map_subset _ h.replayTemplates) hmem)) hid

theorem State.within_forget (s : State) (id : Nat) : (s.forget id).Within s :=
  ⟨List.filter_subset_self .., List.filter_subset_self .., List.filter_subset_self .., List.filter_subset_self ..⟩

theorem State.within_evict (s : State) : s.evict.Within s := by
  rw [State.evict]
  split
  next => exact ⟨fun _ h => h, fun _ h => h, fun _ h => h, fun _ h => h⟩
  next c cs _ =>
    have h := s.within_forget c.id
    exact ⟨h.requestBodies, h.responseBodies, h.breakpoints, h.replayTemplates⟩

theorem State.within_evictMany (n : Nat) : ∀ s : State, (s.evictMany n).Within s := by
  induction n with
  | zero => exact fun s => .refl s
  | succ n ih => exact fun s => s.within_evict.trans (ih s.evict)

theorem State.within_makeRoom (s : State) : s.makeRoom.Within s := by
  rw [State.makeRoom]
  split
  · exact s.within_evict
  · exact .refl s

/-- Nothing is held for a capture that is evicted. -/
theorem State.not_holds_evict {s : State} {id : Nat} (h : s.Retained id)
    (hgone : ¬ s.evict.Retained id) : ¬ s.evict.Holds id := by
  intro hholds
  obtain ⟨c, hc, rfl⟩ := h
  rcases htraffic : s.traffic with _ | ⟨d, cs⟩
  · rw [htraffic] at hc
    cases hc
  · have hd : c = d := by
      rw [htraffic] at hc
      rcases List.mem_cons.mp hc with rfl | hc
      · rfl
      · refine absurd ⟨c, ?_, rfl⟩ hgone
        rw [evict_traffic, htraffic]
        exact hc
    rw [evict, htraffic] at hholds
    exact (holds_forget.mp hholds).2 (congrArg Capture.id hd)

theorem State.not_holds_evictMany {n id : Nat} :
    ∀ {s : State}, s.Retained id → ¬ (s.evictMany n).Retained id →
      ¬ (s.evictMany n).Holds id := by
  induction n with
  | zero => exact fun h hgone => absurd h hgone
  | succ n ih =>
      intro s h hgone hholds
      by_cases hret : s.evict.Retained id
      · exact ih hret hgone hholds
      · exact not_holds_evict h hret ((s.evict.within_evictMany n).holds hholds)

/-- Nothing is held for a capture that `begin_exchange` evicts. -/
theorem State.not_holds_makeRoom {s : State} {id : Nat} (h : s.Retained id)
    (hgone : ¬ s.makeRoom.Retained id) : ¬ s.makeRoom.Holds id := by
  rw [State.makeRoom] at hgone ⊢
  split at hgone
  next hfull =>
    rw [if_pos hfull]
    exact not_holds_evict h hgone
  next => exact absurd h hgone

/-- A capture that leaves `traffic` leaves nothing behind. -/
theorem State.not_holds_apply {s : State} {now id : Nat} {sec : Section} (h : s.Retained id)
    (hgone : ¬ (s.apply now sec).Retained id) : ¬ (s.apply now sec).Holds id := by
  have kept (hids : (s.apply now sec).traffic.map Capture.id = s.traffic.map Capture.id) :
      ¬ (s.apply now sec).Holds id := by
    rw [retained_iff, hids, ← retained_iff] at hgone
    exact absurd h hgone
  cases sec with
  | begin request destination clientProfileId replayOf =>
      have hroom : ¬ s.makeRoom.Retained id := fun ⟨c, hc, hid⟩ =>
        hgone ⟨c, List.mem_append_left _ hc, hid⟩
      have hnew : id ≠ s.nextId := fun heq =>
        hgone ⟨_, List.mem_append_right _ (List.mem_singleton_self _), heq.symm⟩
      have hholds := not_holds_makeRoom h hroom
      simp only [Holds, not_or, State.apply, State.begin] at hholds ⊢
      refine ⟨hholds.1, hholds.2.1, hholds.2.2.1, ?_⟩
      split
      · rw [List.map_cons, List.mem_cons, mem_map_without]
        exact not_or.mpr ⟨hnew, fun hmem => hholds.2.2.2 hmem.1⟩
      · exact hholds.2.2.2
  | update id' change => exact kept (update_ids fun c => c.apply_id now change)
  | openBreakpoint id' task status => exact kept (update_ids fun c => c.pause_id status)
  | clear => simp [Holds, State.apply, State.clear]
  | start settings address =>
      exact not_holds_evictMany (s := s.configured settings) h hgone
  | _ => exact kept rfl

/-- A response body found after a section was there or has just been inserted. -/
theorem State.mem_apply_responseBodies {s : State} {now id : Nat} {sec : Section}
    (h : id ∈ (s.apply now sec).responseBodies) :
    (id ∈ s.responseBodies ∧ sec ≠ .removeResponse id) ∨ sec = .insertResponse id := by
  cases sec with
  | begin request destination clientProfileId replayOf =>
      exact .inl ⟨s.within_makeRoom.responseBodies h, by simp⟩
  | insertResponse id' =>
      rcases List.mem_cons.mp h with rfl | h
      · exact .inr rfl
      · exact .inl ⟨List.mem_of_mem_filter h, by simp⟩
  | removeResponse id' =>
      have hne := List.of_mem_filter h
      exact .inl ⟨List.mem_of_mem_filter h, by simpa using (of_decide_eq_true hne).symm⟩
  | clear => exact absurd h List.not_mem_nil
  | start settings address =>
      exact .inl ⟨((s.configured settings).within_evictMany _).responseBodies h, by simp⟩
  | _ => exact .inl ⟨h, by simp⟩

/-- The same of a request body. -/
theorem State.mem_apply_requestBodies {s : State} {now id : Nat} {sec : Section}
    (h : id ∈ (s.apply now sec).requestBodies) :
    (id ∈ s.requestBodies ∧ sec ≠ .removeRequest id) ∨ sec = .insertRequest id := by
  cases sec with
  | begin request destination clientProfileId replayOf =>
      exact .inl ⟨s.within_makeRoom.requestBodies h, by simp⟩
  | insertRequest id' =>
      rcases List.mem_cons.mp h with rfl | h
      · exact .inr rfl
      · exact .inl ⟨List.mem_of_mem_filter h, by simp⟩
  | removeRequest id' =>
      have hne := List.of_mem_filter h
      exact .inl ⟨List.mem_of_mem_filter h, by simpa using (of_decide_eq_true hne).symm⟩
  | clear => exact absurd h List.not_mem_nil
  | start settings address =>
      exact .inl ⟨((s.configured settings).within_evictMany _).requestBodies h, by simp⟩
  | _ => exact .inl ⟨h, by simp⟩

/-- A breakpoint found after a section was there or has just opened. -/
theorem State.mem_apply_breakpoints {s : State} {now id task : Nat} {sec : Section}
    (h : (id, task) ∈ (s.apply now sec).breakpoints) :
    ((id, task) ∈ s.breakpoints ∧ sec ≠ .removeBreakpoint id) ∨
      ∃ status, sec = .openBreakpoint id task status := by
  cases sec with
  | begin request destination clientProfileId replayOf =>
      exact .inl ⟨s.within_makeRoom.breakpoints h, by simp⟩
  | openBreakpoint id' task' status =>
      rcases List.mem_cons.mp h with heq | h
      · obtain ⟨rfl, rfl⟩ := Prod.mk.inj heq
        exact .inr ⟨status, rfl⟩
      · exact .inl ⟨List.mem_of_mem_filter h, by simp⟩
  | removeBreakpoint id' =>
      have hne := List.of_mem_filter h
      exact .inl ⟨List.mem_of_mem_filter h, by simpa using (of_decide_eq_true hne : id ≠ id').symm⟩
  | clear => exact absurd h List.not_mem_nil
  | start settings address =>
      exact .inl ⟨((s.configured settings).within_evictMany _).breakpoints h, by simp⟩
  | _ => exact .inl ⟨h, by simp⟩

/-- A replay template found after a section was there, or is that of a new capture. -/
theorem State.mem_apply_replayTemplates {s : State} {now id : Nat} {sec : Section}
    (h : id ∈ (s.apply now sec).replayTemplates.map Prod.fst) :
    id ∈ s.replayTemplates.map Prod.fst ∨ (s.apply now sec).Retained id := by
  cases sec with
  | begin request destination clientProfileId replayOf =>
      have hroom := List.map_subset Prod.fst s.within_makeRoom.replayTemplates
      simp only [State.apply, State.begin] at h
      split at h
      · rw [List.map_cons, List.mem_cons, mem_map_without] at h
        rcases h with rfl | h
        · exact .inr ⟨_, List.mem_append_right _ (List.mem_singleton_self _), rfl⟩
        · exact .inl (hroom h.1)
      · exact .inl (hroom h)
  | clear => exact absurd h List.not_mem_nil
  | start settings address =>
      exact .inl (List.map_subset Prod.fst
        ((s.configured settings).within_evictMany _).replayTemplates h)
  | _ => exact .inl h

end SippinSoda
