import SippinSoda.Workers

/-!
# The maps of the two stores

A store finds the entry of an exchange under its id. Threads work on entries whether a store has
them or not; only insertions and removals change the maps.

* **key?** — the place of an entry in its store's map;
* **inserts?**, **removes?** — what an event does to the maps, and `Moves.stored`, that it does no
  more;
* **takeOut** — `remove`, and a turn of the loop of `clear`;
* **held** — what the bodies of an exchange have reserved.
-/

namespace SippinSoda.Budget

open Ledger

/-! ## Keys -/

/-- The store that has the entry, and the id it has it under. -/
def Entry.key? (e : Entry) : Option (Side × Nat) :=
  if e.inStore then some (e.side, e.id) else none

/-- Does a store have an entry under that key? -/
def State.Stored (s : State) (key : Side × Nat) : Prop := ∃ e ∈ s.entries, e.key? = some key

/-- The keys the stores have entries under. -/
def State.keys (s : State) : List (Side × Nat) := s.entries.filterMap Entry.key?

theorem State.mem_keys {s : State} {key : Side × Nat} : key ∈ s.keys ↔ s.Stored key :=
  List.mem_filterMap

theorem Entry.key?_of_inStore {e : Entry} (h : e.inStore = true) :
    e.key? = some (e.side, e.id) := by
  unfold Entry.key?
  rw [if_pos h]

theorem Entry.key?_of_not_inStore {e : Entry} (h : e.inStore = false) : e.key? = none := by
  unfold Entry.key?
  rw [if_neg (by rw [h]; exact Bool.false_ne_true)]

theorem Entry.key?_eq_some {e : Entry} {side : Side} {id : Nat} :
    e.key? = some (side, id) ↔ e.inStore = true ∧ e.side = side ∧ e.id = id := by
  by_cases h : e.inStore = true
  · rw [Entry.key?_of_inStore h]
    simp [h]
  · rw [Entry.key?_of_not_inStore (by simpa using h)]
    simp [h]

theorem find_eq_some {entries : List Entry} {side : Side} {id i : Nat}
    (h : find entries side id = some i) :
    ∃ e, entries[i]? = some e ∧ e.key? = some (side, id) := by
  obtain ⟨hlt, hp, -⟩ := List.findIdx?_eq_some_iff_getElem.mp h
  simp only [Bool.and_eq_true, beq_iff_eq] at hp
  exact ⟨entries[i], List.getElem?_eq_getElem hlt, Entry.key?_eq_some.mpr ⟨hp.1.1, hp.1.2, hp.2⟩⟩

theorem find_eq_none {entries : List Entry} {side : Side} {id : Nat} :
    find entries side id = none ↔ ∀ e ∈ entries, e.key? ≠ some (side, id) := by
  unfold find
  rw [List.findIdx?_eq_none_iff]
  refine forall₂_congr fun e _ => ?_
  rw [Ne, Entry.key?_eq_some]
  simp

/-- A thread leaves its entry where it is. -/
theorem stepOn_key {k used : Nat} {e : Entry} {t : Thread} {a : Answer} {l : Local Thread}
    (h : t.stepOn k used e a = some l) : l.entry.key? = e.key? := by
  cases t with
  | store op pc => simp [Thread.stepOn] at h
  | worker i pc =>
      simp only [Thread.stepOn, Option.map_eq_some_iff] at h
      obtain ⟨l', hl', rfl⟩ := h
      show l'.entry.key? = _
      rw [workerStep_entry hl']
      rfl
  | layout i pc =>
      simp only [Thread.stepOn, Option.map_eq_some_iff] at h
      obtain ⟨l', hl', rfl⟩ := h
      show l'.entry.key? = _
      rcases layoutStep_entry hl' with ⟨hentry, -⟩ | ⟨outcome, -, -, hentry⟩
      · rw [hentry]
        rfl
      · rw [hentry]
        cases outcome <;> rfl
  | cancel i pc =>
      cases a <;> simp only [Thread.stepOn, Option.map_eq_some_iff, reduceCtorEq] at h
      obtain ⟨l', hl', rfl⟩ := h
      show l'.entry.key? = _
      rw [cancelStep_entry hl']
      rfl

/-! ## What an event does to the maps -/

/-- The key an event inserts an entry under. -/
def Event.inserts? (s : State) : Event → Option (Side × Nat)
  | .insert k =>
      match s.threads[k]? with
      | some (.store op .stored) => some (op.side, op.id)
      | _ => none
  | .record side id _ => some (side, id)
  | _ => none

/-- The key an event takes the entry from. -/
def Event.removes? (s : State) : Event → Option (Side × Nat)
  | .remove i => s.entries[i]?.bind Entry.key?
  | _ => none

/-- Does the event change one of the maps? -/
def Event.maps : Event → Bool
  | .insert _ | .record _ _ _ | .remove _ => true
  | _ => false

theorem Event.inserts?_insert {s : State} {k : Nat} {op : StoreOp}
    (hk : s.threads[k]? = some (.store op .stored)) :
    (Event.insert k).inserts? s = some (op.side, op.id) := by
  simp [Event.inserts?, hk]

theorem Event.removes?_remove {s : State} {i : Nat} {e : Entry} (he : s.entries[i]? = some e) :
    (Event.remove i).removes? s = e.key? := by
  simp [Event.removes?, he]

theorem Event.keys_of_not_maps {s : State} {event : Event} (h : event.maps = false) :
    event.inserts? s = none ∧ event.removes? s = none := by
  cases event <;> first | exact ⟨rfl, rfl⟩ | cases h

section Maps

variable {entries : List Entry} {e e' : Entry} {key : Side × Nat}

/-- One entry changes. -/
theorem stored_set (hsingle : SingleOwner Entry.key? entries) {i : Nat}
    (he : entries[i]? = some e) :
    (∃ d ∈ entries.set i e', d.key? = some key) ↔
      (∃ d ∈ entries, d.key? = some key) ∧ e.key? ≠ some key ∨ e'.key? = some key := by
  have hlt := (List.getElem?_eq_some_iff.mp he).1
  constructor
  · rintro ⟨d, hd, hkey⟩
    obtain ⟨j, hj⟩ := List.mem_iff_getElem?.mp hd
    rcases SingleOwner.getElem?_set_cases hj with ⟨rfl, rfl⟩ | ⟨hne, hj⟩
    · exact .inr hkey
    · refine .inl ⟨⟨d, List.mem_of_getElem? hj, hkey⟩, fun hsame => ?_⟩
      exact hne (hsingle hj he hkey hsame)
  · rintro (⟨⟨d, hd, hkey⟩, hne⟩ | hkey)
    · obtain ⟨j, hj⟩ := List.mem_iff_getElem?.mp hd
      have hij : i ≠ j := by
        rintro rfl
        cases he.symm.trans hj
        exact hne hkey
      exact ⟨d, List.mem_of_getElem? ((List.getElem?_set_ne hij).trans hj), hkey⟩
    · exact ⟨e', List.mem_set hlt _, hkey⟩

/-- An insertion adds its key, and replaces at most the entry that had it. -/
theorem stored_insertEntry (hstore : e.inStore = true) :
    (∃ d ∈ (insertEntry entries e).1, d.key? = some key) ↔
      (∃ d ∈ entries, d.key? = some key) ∨ key = (e.side, e.id) := by
  constructor
  · rintro ⟨d, hd, hkey⟩
    obtain ⟨j, hj⟩ := List.mem_iff_getElem?.mp hd
    rcases insertEntry_get hj with ⟨-, rfl⟩ | hold | ⟨old, -, rfl, -⟩
    · rw [Entry.key?_of_inStore hstore] at hkey
      exact .inr (Option.some.inj hkey).symm
    · exact .inl ⟨d, List.mem_of_getElem? hold, hkey⟩
    · cases hkey
  · have hnew : ∃ d ∈ (insertEntry entries e).1, d.key? = some (e.side, e.id) :=
      ⟨e, List.mem_of_getElem? insertEntry_spec.1, Entry.key?_of_inStore hstore⟩
    rintro (⟨d, hd, hkey⟩ | rfl)
    · by_cases hsame : key = (e.side, e.id)
      · exact hsame ▸ hnew
      · refine ⟨d, ?_, hkey⟩
        unfold insertEntry
        cases hfind : find entries e.side e.id with
        | none => exact List.mem_append_left _ hd
        | some i =>
            obtain ⟨old, hold, hkey'⟩ := find_eq_some hfind
            obtain ⟨j, hj⟩ := List.mem_iff_getElem?.mp hd
            refine List.mem_append_left _ (List.mem_of_getElem? (i := j) ?_)
            rw [List.getElem?_modify_ne, hj]
            rintro rfl
            cases hold.symm.trans hj
            exact hsame (Option.some.inj (hkey.symm.trans hkey'))
    · exact hnew

theorem single_insertEntry (hsingle : SingleOwner Entry.key? entries) (hstore : e.inStore = true) :
    SingleOwner Entry.key? (insertEntry entries e).1 := by
  unfold insertEntry
  cases hfind : find entries e.side e.id with
  | none =>
      refine hsingle.append_one fun v hv d hd => ?_
      rw [Entry.key?_of_inStore hstore] at hv
      cases hv
      exact find_eq_none.mp hfind d hd
  | some i =>
      obtain ⟨old, hold, hkey⟩ := find_eq_some hfind
      show SingleOwner Entry.key? (entries.modify i _ ++ [e])
      rw [List.modify_eq_set_getElem?, hold]
      refine hsingle.hand_over hold rfl ?_
      rw [hkey, Entry.key?_of_inStore hstore]

end Maps

section Steps

variable {s s' : State} {event : Event}

/-- An entry that keeps its place. -/
theorem State.stored_set_key {i : Nat} {e e' : Entry}
    (hsingle : SingleOwner Entry.key? s.entries) (he : s.entries[i]? = some e)
    (hsame : e'.key? = e.key?) :
    SingleOwner Entry.key? (s.entries.set i e') ∧
      ∀ key, (∃ d ∈ s.entries.set i e', d.key? = some key) ↔ s.Stored key := by
  refine ⟨hsingle.set he fun v hv => .inl (hsame ▸ hv), fun key => ?_⟩
  rw [stored_set hsingle he, hsame]
  constructor
  · rintro (⟨hstored, -⟩ | hkey)
    · exact hstored
    · exact ⟨e, List.mem_of_getElem? he, hkey⟩
  · intro hstored
    by_cases hkey : e.key? = some key
    · exact .inr hkey
    · exact .inl ⟨hstored, hkey⟩

/-- **An event changes the maps by its own insertion or removal only**, and no two entries come
under one key. -/
theorem Moves.stored (h : Moves s event s') (hsingle : SingleOwner Entry.key? s.entries) :
    SingleOwner Entry.key? s'.entries ∧ ∀ key, s'.Stored key ↔
      s.Stored key ∧ event.removes? s ≠ some key ∨ event.inserts? s = some key := by
  have hkeep {t : State} {event : Event} (hremoves : event.removes? s = none)
      (hinserts : event.inserts? s = none)
      (ht : SingleOwner Entry.key? t.entries ∧ ∀ key, t.Stored key ↔ s.Stored key) :
      SingleOwner Entry.key? t.entries ∧ ∀ key, t.Stored key ↔
        s.Stored key ∧ event.removes? s ≠ some key ∨ event.inserts? s = some key := by
    refine ⟨ht.1, fun key => ?_⟩
    rw [ht.2 key, hremoves, hinserts]
    simp
  have hinsert {e : Entry} {event : Event} (hstore : e.inStore = true)
      (hremoves : event.removes? s = none) (hinserts : event.inserts? s = some (e.side, e.id))
      (key : Side × Nat) : (∃ d ∈ (insertEntry s.entries e).1, d.key? = some key) ↔
        s.Stored key ∧ event.removes? s ≠ some key ∨ event.inserts? s = some key := by
    rw [stored_insertEntry hstore, hremoves, hinserts, Option.some.injEq, eq_comm]
    simp [State.Stored]
  cases h with
  | call op => exact hkeep rfl rfl ⟨hsingle, fun key => Iff.rfl⟩
  | store hevent =>
      rcases hevent with ⟨ok, rfl⟩ | rfl <;> exact hkeep rfl rfl ⟨hsingle, fun key => Iff.rfl⟩
  | insert hk =>
      exact ⟨single_insertEntry hsingle rfl, hinsert rfl rfl (Event.inserts?_insert hk)⟩
  | record side id limit =>
      exact ⟨single_insertEntry hsingle rfl, hinsert rfl rfl rfl⟩
  | act hk hi he hl =>
      exact hkeep rfl rfl (State.stored_set_key hsingle he (stepOn_key hl))
  | touch he htouched =>
      cases htouched with
      | remove hstore =>
          refine ⟨hsingle.set he (fun v hv => by cases hv), fun key => ?_⟩
          rw [Event.removes?_remove he]
          exact stored_set hsingle he
      | recancel => exact hkeep rfl rfl (State.stored_set_key hsingle he rfl)
      | tapDrop => exact hkeep rfl rfl (State.stored_set_key hsingle he rfl)
      | startLayout => exact hkeep rfl rfl (State.stored_set_key hsingle he rfl)
      | cancelLayout => exact hkeep rfl rfl (State.stored_set_key hsingle he rfl)
  | drop he => exact hkeep rfl rfl (State.stored_set_key hsingle he rfl)

/-- A store has one entry under a key. -/
theorem single_of_reachable (h : machine.Reachable s) : SingleOwner Entry.key? s.entries :=
  h.invariant (I := fun s => SingleOwner Entry.key? s.entries) SingleOwner.nil
    fun hs _ hstep => ((step_moves hstep).stored hs).1

theorem stored_step (h : machine.Reachable s) (hstep : step s event = some s') (key : Side × Nat) :
    s'.Stored key ↔ s.Stored key ∧ event.removes? s ≠ some key ∨ event.inserts? s = some key :=
  ((step_moves hstep).stored (single_of_reachable h)).2 key

/-- Whatever works on the stores, a store operation can come to its insertion. -/
theorem exists_insertion (h : machine.Reachable s) (side : Side) (id : Nat) :
    ∃ events t k, machine.runFrom s events = some t ∧ (∀ event ∈ events, event.maps = false) ∧
      (Event.insert k).inserts? t = some (side, id) ∧ (step t (.insert k)).isSome = true := by
  -- it stores no bytes, under the budget that is used up
  let op : StoreOp := ⟨side, id, 0, s.used, true⟩
  let t : State := { s with
    threads := s.threads ++ [.store op .stored], ops := .reserve s.used s.used :: s.ops }
  have hused := (good_of_reachable h).bounded
  have hreserve : checkedReserve s.used op.length op.limit = some s.used := by
    unfold checkedReserve
    exact if_pos ⟨hused, Nat.le_refl _⟩
  have hstored : t.threads[s.threads.length]? = some (.store op .stored) := by
    show (s.threads ++ [.store op .stored])[s.threads.length]? = _
    simp
  refine ⟨[.call op, .closure s.threads.length true, .closure s.threads.length true], t,
    s.threads.length, ?_, ?_, Event.inserts?_insert hstored, ?_⟩
  · simp [Machine.runFrom, machine, step, State.spawn, closureStep, hreserve, op, t]
  · simp [Event.maps]
  · simp only [step, hstored]
    split <;> rfl

end Steps

/-! ## Removals -/

/-- `BodyStore::remove`, or one turn of the loop of `clear`. -/
def State.takeOut (s : State) (key : Side × Nat) : State :=
  match find s.entries key.1 key.2 with
  | none => s
  | some i =>
      { s with entries := s.entries.modify i fun e => { e with inStore := false } }.spawn
        (.cancel i .waiting)

theorem State.takeOut_cases (s : State) (key : Side × Nat) :
    s.takeOut key = s ∧ ¬ s.Stored key ∨
      ∃ i, step s (.remove i) = some (s.takeOut key) ∧
        (Event.remove i).removes? s = some key := by
  unfold State.takeOut
  cases hfind : find s.entries key.1 key.2 with
  | none =>
      refine .inl ⟨rfl, ?_⟩
      rintro ⟨e, he, hkey⟩
      exact find_eq_none.mp hfind e he hkey
  | some i =>
      obtain ⟨e, he, hkey⟩ := find_eq_some hfind
      refine .inr ⟨i, ?_, ?_⟩
      · have hstore := (Entry.key?_eq_some.mp hkey).1
        simp [step, he, hstore, List.modify_eq_set_getElem?]
      · rw [Event.removes?_remove he]
        exact hkey

/-- What removals leave in the stores. -/
theorem stored_foldl_takeOut {guard : State → Event → Prop}
    (hguard : ∀ s i, guard s (.remove i)) (keys : List (Side × Nat)) :
    ∀ {s : State}, machine.Reach guard s → machine.Reach guard (keys.foldl State.takeOut s) ∧
      ∀ key, (keys.foldl State.takeOut s).Stored key ↔ s.Stored key ∧ key ∉ keys := by
  induction keys with
  | nil => exact fun h => ⟨h, fun key => by simp⟩
  | cons first keys ih =>
      intro s h
      have hfirst : machine.Reach guard (s.takeOut first) ∧
          ∀ key, (s.takeOut first).Stored key ↔ s.Stored key ∧ key ≠ first := by
        rcases s.takeOut_cases first with ⟨hsame, hnone⟩ | ⟨i, hstep, hremoves⟩
        · rw [hsame]
          refine ⟨h, fun key => ?_⟩
          constructor
          · intro hstored
            refine ⟨hstored, ?_⟩
            rintro rfl
            exact hnone hstored
          · exact And.left
        · refine ⟨.step h (hguard s i) hstep, fun key => ?_⟩
          rw [stored_step h.reachable hstep, hremoves]
          simp [Event.inserts?, eq_comm]
      obtain ⟨hreach, hstored⟩ := ih hfirst.1
      refine ⟨hreach, fun key => ?_⟩
      show (keys.foldl State.takeOut (s.takeOut first)).Stored key ↔ _
      rw [hstored, hfirst.2, List.mem_cons, not_or, and_assoc]

/-! ## The bodies of one exchange -/

/-- What the bodies that the stores have of an exchange have reserved. -/
def State.held (s : State) (id : Nat) : Nat :=
  total (fun e => if e.id = id then presentReserved e else 0) s.entries

end SippinSoda.Budget
