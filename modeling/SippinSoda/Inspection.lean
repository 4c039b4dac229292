import SippinSoda.LayoutJobs
import SippinSoda.JsonWhitespace
import SippinSoda.Search

/-!
# Inspecting a body that changes (`search`, `json_page` in `proxy/bodies/inspect.rs`)

A search scans a frozen range of the raw bytes, one buffer after the other, while its worker goes
on appending and the entry may be cleared; a page of the JSON layout is read from a file that
another call may take away. The calls run beside everything that works on the two stores.

* **scanTurn** — one turn of the loop of `scan`, which a search makes at a time of its own;
* **Call**, **step** — the calls, over the machine of the stores;
* **Learnt** — what a call has found out, which the growth of the body does not change;
* **search_calls_find_the_first_match**, **json_pages_show_one_layout** — what they return.
-/

namespace SippinSoda.Inspection

/-! ## A scan, turn by turn -/

/-- What comes of a turn of `while position < stop`: a match, or where the next turn begins. -/
inductive Turned where
  | failed (message : String)
  | found (step : SearchStep)
  | next (position matched : Nat)
  deriving DecidableEq, Repr

/-- The turn at `position`. -/
def scanTurn (needle : List UInt8) (prefix_ : List Nat) (stop : Nat) (file : List UInt8)
    (position matched : Nat) : Option Turned :=
  let count := min pageSize (stop - position)
  match readExact (file.drop position) count with
  | none => some (.failed "Cannot read search range.")
  | some (buffer, _) =>
    match Kmp.feed needle prefix_ buffer matched with
    | none => none
    | some (.inl read) => (checkedSub (position + read) needle.length).map fun found => .found {
        found := some found
        nextOffset := found + 1
        scannedTo := position + read
        done := true }
    | some (.inr matched) => some (.next (position + count) matched)

/-- What `scan` returns when no turn has found a match. -/
def scanEnd (end_ stop position matched : Nat) : Option SearchStep :=
  (if stop = end_ then some end_ else checkedSub position matched).map fun nextOffset => {
    found := none
    nextOffset := nextOffset
    scannedTo := stop
    done := stop == end_ }

/-- What `scan` makes of its loop. -/
def scanned (end_ stop : Nat) :
    Except String (SearchStep ⊕ Nat × Nat) → Option (Except String SearchStep)
  | .error message => some (.error message)
  | .ok (.inl step) => some (.ok step)
  | .ok (.inr (position, matched)) => (scanEnd end_ stop position matched).map .ok

/-- What is left of `scan` at a turn. -/
def scanRest (file needle : List UInt8) (prefix_ : List Nat) (end_ stop position matched : Nat) :
    Option (Except String SearchStep) :=
  (scanLoop needle prefix_ stop (fun _ => false) (stop - position) (file.drop position)
    position matched).bind (scanned end_ stop)

/-- What is left after a turn. -/
def Turned.rest (file needle : List UInt8) (prefix_ : List Nat) (end_ stop : Nat) :
    Turned → Option (Except String SearchStep)
  | .failed message => some (.error message)
  | .found step => some (.ok step)
  | .next position matched => scanRest file needle prefix_ end_ stop position matched

section Turns

variable {file needle : List UInt8} {prefix_ : List Nat} {start end_ stop position matched : Nat}

theorem scan_eq_scanRest (htable : Kmp.table needle = some prefix_) :
    scan (file.drop start) needle start end_ (fun _ => false) =
      scanRest file needle prefix_ end_ (min end_ (start + scanBytes)) start 0 := by
  unfold scan scanRest
  rw [htable]
  show Option.bind (scanLoop ..) _ = Option.bind (scanLoop ..) _
  refine congrArg _ (funext fun result => ?_)
  rcases result with message | step | ⟨position, matched⟩
  · rfl
  · rfl
  · unfold scanned scanEnd
    by_cases hend : min end_ (start + scanBytes) = end_
    · simp [hend]
    · cases hsub : checkedSub position matched <;> simp [hend, hsub]

/-- At the end of the step no turn is left. -/
theorem scanRest_stop (h : ¬ position < stop) :
    scanRest file needle prefix_ end_ stop position matched =
      (scanEnd end_ stop position matched).map .ok := by
  have hturns : stop - position = 0 := by omega
  unfold scanRest
  rw [hturns]
  unfold scanLoop
  rw [if_neg h]
  rfl

/-- Turns that are not made do not matter. -/
theorem scanLoop_turns {reader : List UInt8} {turns turns' : Nat} (h : stop - position ≤ turns)
    (h' : stop - position ≤ turns') :
    scanLoop needle prefix_ stop (fun _ => false) turns reader position matched =
      scanLoop needle prefix_ stop (fun _ => false) turns' reader position matched := by
  induction turns generalizing turns' reader position matched with
  | zero =>
      have hstop : ¬ position < stop := by omega
      unfold scanLoop
      rw [if_neg hstop, if_neg hstop]
  | succ turns ih =>
      by_cases hlt : position < stop
      · obtain ⟨turns', rfl⟩ : ∃ n, turns' = n + 1 := ⟨turns' - 1, by omega⟩
        have hleft : checkedSub stop position = some (stop - position) := if_pos (by omega)
        have hpage : 0 < pageSize := by decide
        unfold scanLoop
        simp only [if_pos hlt, hleft, Option.bind_eq_bind, Option.bind_some]
        cases hread : readExact reader (min pageSize (stop - position)) with
        | none => rfl
        | some r =>
            obtain ⟨buffer, rest⟩ := r
            cases hfeed : Kmp.feed needle prefix_ buffer matched with
            | none => simp [hfeed]
            | some result =>
                cases result with
                | inl read => simp [hfeed]
                | inr matched' =>
                    simp only [hfeed, Option.bind_some]
                    exact ih (by omega) (by omega)
      · unfold scanLoop
        rw [if_neg hlt, if_neg hlt]

/-- What is left of a scan is a turn, and what is left after it. -/
theorem scanRest_turn (h : position < stop) :
    scanRest file needle prefix_ end_ stop position matched =
      (scanTurn needle prefix_ stop file position matched).bind
        (Turned.rest file needle prefix_ end_ stop) := by
  obtain ⟨turns, hturns⟩ : ∃ n, stop - position = n + 1 := ⟨stop - position - 1, by omega⟩
  have hleft : checkedSub stop position = some (stop - position) := if_pos (by omega)
  have hpage : 0 < pageSize := by decide
  unfold scanRest
  rw [hturns]
  unfold scanLoop scanTurn
  simp only [if_pos h, hleft, Option.bind_eq_bind, Option.bind_some]
  cases hread : readExact (file.drop position) (min pageSize (stop - position)) with
  | none => rfl
  | some r =>
      obtain ⟨buffer, reader⟩ := r
      -- the file is read on from where the turn ends
      have hreader : reader = file.drop (position + min pageSize (stop - position)) := by
        unfold readExact at hread
        split at hread
        next => rw [← (Prod.mk.inj (Option.some.inj hread)).2, List.drop_drop]
        next => cases hread
      cases hfeed : Kmp.feed needle prefix_ buffer matched with
      | none => simp [hfeed]
      | some result =>
          cases result with
          | inl read =>
              cases hfound : checkedSub (position + read) needle.length <;>
                simp [hfeed, hfound, Turned.rest, scanned]
          | inr matched' =>
              simp only [hfeed, Option.bind_some, hreader]
              show Option.bind (scanLoop ..) _ = Option.bind (scanLoop ..) _
              rw [scanLoop_turns (by omega) (Nat.le_refl _)]

/-- A turn goes on within its range. -/
theorem scanTurn_next {position' matched' : Nat} (h : position < stop)
    (hturn : scanTurn needle prefix_ stop file position matched = some (.next position' matched')) :
    position < position' ∧ position' ≤ stop := by
  have hpage : 0 < pageSize := by decide
  unfold scanTurn at hturn
  simp only at hturn
  split at hturn
  next => cases hturn
  next =>
    split at hturn
    next => cases hturn
    next => simp at hturn
    next =>
      obtain ⟨rfl, rfl⟩ := Turned.next.inj (Option.some.inj hturn)
      omega

/-- The bytes behind the range do not matter. -/
theorem scanLoop_append {turns : Nat} {reader more : List UInt8}
    (h : stop - position ≤ reader.length) :
    scanLoop needle prefix_ stop (fun _ => false) turns (reader ++ more) position matched =
      scanLoop needle prefix_ stop (fun _ => false) turns reader position matched := by
  induction turns generalizing reader position matched with
  | zero => unfold scanLoop; rfl
  | succ turns ih =>
      unfold scanLoop
      by_cases hlt : position < stop
      · have hleft : checkedSub stop position = some (stop - position) := if_pos (by omega)
        have hcount : min pageSize (stop - position) ≤ reader.length := by omega
        have hread : readExact reader (min pageSize (stop - position)) =
            some (reader.take (min pageSize (stop - position)),
              reader.drop (min pageSize (stop - position))) := if_pos hcount
        have hmore : readExact (reader ++ more) (min pageSize (stop - position)) =
            some (reader.take (min pageSize (stop - position)),
              reader.drop (min pageSize (stop - position)) ++ more) := by
          unfold readExact
          rw [if_pos (by rw [List.length_append]; omega), List.take_append_of_le_length hcount,
            List.drop_append_of_le_length hcount]
        simp only [if_pos hlt, hleft, Option.bind_eq_bind, Option.bind_some, hread, hmore]
        cases hfeed : Kmp.feed needle prefix_
            (reader.take (min pageSize (stop - position))) matched with
        | none => simp
        | some result =>
            cases result with
            | inl read => simp
            | inr matched' =>
                simp only [Option.bind_some]
                exact ih (by rw [List.length_drop]; omega)
      · rw [if_neg hlt, if_neg hlt]

/-- A body that is appended to is scanned alike. -/
theorem scanRest_extended {file' : List UInt8} (h : file <+: file') (hposition : position ≤ stop)
    (hstop : stop ≤ file.length) :
    scanRest file' needle prefix_ end_ stop position matched =
      scanRest file needle prefix_ end_ stop position matched := by
  obtain ⟨more, rfl⟩ := h
  unfold scanRest
  rw [List.drop_append_of_le_length (by omega), scanLoop_append (by rw [List.length_drop]; omega)]

theorem scan_extended {file' : List UInt8} (h : file <+: file') (hstart : start ≤ end_)
    (hend : end_ ≤ file.length) :
    scan (file'.drop start) needle start end_ (fun _ => false) =
      scan (file.drop start) needle start end_ (fun _ => false) := by
  cases htable : Kmp.table needle with
  | none =>
      unfold scan
      rw [htable]
      rfl
  | some prefix_ =>
      rw [scan_eq_scanRest htable, scan_eq_scanRest htable]
      exact scanRest_extended h (by omega) (by omega)

end Turns

open Bodies hiding step start
open Budget hiding step start
open Ledger

/-! ## Calls -/

/-- What a call asks for. -/
inductive Query where
  | search (needle : List UInt8) (start end_ : Nat)
  | jsonPage (offset length : Nat)
  deriving DecidableEq, Repr

inductive Reply where
  | step (step : SearchStep)
  | page (page : BodyPage)
  deriving DecidableEq, Repr

/-- Where the closure of a call is. -/
inductive Pc where
  | start
  /-- The range is within the total. -/
  | ranged
  /-- The body's file is open, at a turn of `scan`. -/
  | scanning (prefix_ : List Nat) (position matched : Nat)
  /-- The layout's file is open, and `JsonView::total` has been read with it. -/
  | opened (layout : List UInt8) (total : Nat)
  | read (page : BodyPage)
  | returned (reply : Except String Reply)
  deriving DecidableEq

/-- A call that has looked its entry up. -/
structure Call where
  entry : Nat
  query : Query
  pc : Pc
  /-- Does its closure hold a permit of `analysis`? -/
  permit : Bool
  deriving DecidableEq

/-- Where a turn leaves a search. -/
def Turned.pc (prefix_ : List Nat) : Turned → Pc
  | .failed message => .returned (.error message)
  | .found step => .returned (.ok (.step step))
  | .next position matched => .scanning prefix_ position matched

/-- A step of a search on its entry. -/
def searchStep (e : Entry) (f : Files) (needle : List UInt8) (start end_ : Nat) :
    Pc → ReadAnswer → Option Pc
  | .start, .go =>
      if start > end_ ∨ end_ > e.total then some (.returned (.error "Invalid search range."))
      else some .ranged
  | .ranged, .go =>
      if f.file then (Kmp.table needle).map fun prefix_ => .scanning prefix_ start 0
      else some (.returned (.error "Body cleared."))
  | .ranged, .failed message => if f.file then some (.returned (.error message)) else none
  | .scanning prefix_ position matched, .go =>
      let stop := min end_ (start + scanBytes)
      if position < stop then
        if e.cancelled then
          some (.returned (.error "Search cancelled: body cleared or evicted."))
        else (scanTurn needle prefix_ stop f.recorded position matched).map (Turned.pc prefix_)
      else (scanEnd end_ stop position matched).map fun step => .returned (.ok (.step step))
  | .scanning _ position _, .failed message =>
      if position < min end_ (start + scanBytes) then some (.returned (.error message)) else none
  | _, _ => none

/-- A step of `json_page` on its entry. -/
def jsonPageStep (e : Entry) (f : Files) (offset length : Nat) : Pc → ReadAnswer → Option Pc
  | .start, .go =>
      match f.view with
      | none => some (.returned (.error "JSON layout is not ready."))
      | some layout => some (.opened layout e.layout)
  | .start, .failed message =>
      if f.view.isSome then some (.returned (.error message)) else none
  | .opened layout total, .go =>
      if offset > total then some (.returned (.error "Offset exceeds JSON layout."))
      else match readExact (layout.drop offset) (min length (total - offset)) with
        | none => some (.returned (.error "Cannot read JSON layout."))
        | some (bytes, _) => some (.read ⟨total, bytes, .complete⟩)
  | .opened _ total, .failed message =>
      if offset ≤ total then some (.returned (.error message)) else none
  | .read page, .go =>
      if e.cancelled then some (.returned (.error "Body cleared or evicted."))
      else some (.returned (.ok (.page page)))
  | _, _ => none

def callStep (e : Entry) (f : Files) : Query → Pc → ReadAnswer → Option Pc
  | .search needle start end_ => searchStep e f needle start end_
  | .jsonPage offset length => jsonPageStep e f offset length

/-! ## The machine -/

structure State where
  bodies : Bodies.State
  calls : List Call

/-- Two empty stores, and no calls. -/
def start : State := ⟨Bodies.start, []⟩

/-- What a call does before its closure runs. -/
def State.ask (s : State) (side : Side) (id : Nat) (query : Query) : Except String Call :=
  let entry := find s.bodies.budget.entries side id
  match query with
  | .search needle _ _ =>
      if needle.length = 0 ∨ needle.length > 4096 then
        .error "Search requires 1–4096 UTF-8 bytes."
      else match entry with
        | none => .error "Body not recorded, cleared or evicted."
        | some i =>
            if s.bodies.available = 0 then .error "Body analysis is busy. Try again."
            else .ok ⟨i, query, .start, true⟩
  | .jsonPage _ length =>
      if length = 0 ∨ length > pageSize then
        .error "Read size must be between 1 and 65536 bytes."
      else match entry with
        | none => .error "Body not recorded, cleared or evicted."
        | some i => .ok ⟨i, query, .start, false⟩

inductive Event where
  /-- A step of the stores. -/
  | bodies (e : Bodies.Event)
  | call (side : Side) (id : Nat) (query : Query)
  | turn (k : Nat) (a : ReadAnswer)
  /-- The closure of a search is gone, and its permit with it. -/
  | gone (k : Nat)

/-- Is the call done with entry `i`? -/
def Call.leaves (c : Call) (i : Nat) : Bool :=
  match c.pc with
  | .returned _ => true
  | _ => c.entry != i

/-- Which steps of the stores the calls leave room for: they keep their entries alive, and hold the
permits of the searches themselves. -/
def admits (calls : List Call) : Bodies.Event → Bool
  | .search | .searchEnd => false
  | .drop i => calls.all (·.leaves i)
  | _ => true

/-- One step of the system. -/
def step (serde : IgnoredAny) (s : State) : Event → Option State
  | .bodies e =>
      if admits s.calls e then (Bodies.step serde s.bodies e).map fun b => { s with bodies := b }
      else none
  | .call side id query =>
      match s.ask side id query with
      | .error _ => some s
      | .ok c =>
          if c.permit then
            (Bodies.step serde s.bodies .search).map fun b => ⟨b, s.calls ++ [c]⟩
          else some { s with calls := s.calls ++ [c] }
  | .turn k a =>
      match s.calls[k]? with
      | none => none
      | some c =>
        match s.bodies.budget.entries[c.entry]? with
        | none => none
        | some e => (callStep e (s.bodies.files c.entry) c.query c.pc a).map fun pc =>
            { s with calls := s.calls.set k { c with pc := pc } }
  | .gone k =>
      match s.calls[k]? with
      | some ⟨i, query, .returned reply, true⟩ =>
          (Bodies.step serde s.bodies .searchEnd).map fun b =>
            ⟨b, s.calls.set k ⟨i, query, .returned reply, false⟩⟩
      | _ => none

/-- The stores, and the calls that inspect a body. -/
def inspection (serde : IgnoredAny) : Machine State Event where
  start := start
  step := step serde

/-- **All that a step can do.** -/
inductive Steps (serde : IgnoredAny) (s : State) : Event → State → Prop
  | bodies {e b} : admits s.calls e = true → Bodies.step serde s.bodies e = some b →
      Steps serde s (.bodies e) { s with bodies := b }
  | refuse {side id query} : Steps serde s (.call side id query) s
  | search {side id query c b} : s.ask side id query = .ok c → c.permit = true →
      Bodies.step serde s.bodies .search = some b →
      Steps serde s (.call side id query) ⟨b, s.calls ++ [c]⟩
  | page {side id query c} : s.ask side id query = .ok c → c.permit = false →
      Steps serde s (.call side id query) { s with calls := s.calls ++ [c] }
  | turn {k a c e pc} : s.calls[k]? = some c → s.bodies.budget.entries[c.entry]? = some e →
      callStep e (s.bodies.files c.entry) c.query c.pc a = some pc →
      Steps serde s (.turn k a) { s with calls := s.calls.set k { c with pc := pc } }
  | gone {k i query reply b} : s.calls[k]? = some ⟨i, query, .returned reply, true⟩ →
      Bodies.step serde s.bodies .searchEnd = some b →
      Steps serde s (.gone k) ⟨b, s.calls.set k ⟨i, query, .returned reply, false⟩⟩

theorem step_steps {serde : IgnoredAny} {s s' : State} {e : Event}
    (h : step serde s e = some s') : Steps serde s e s' := by
  unfold step at h
  cases e with
  | bodies e =>
      simp only at h
      split at h
      next hadmits =>
        obtain ⟨b, hb, rfl⟩ := Option.map_eq_some_iff.mp h
        exact .bodies hadmits hb
      next => cases h
  | call side id query =>
      simp only at h
      split at h
      next => cases h; exact .refuse
      next c hc =>
        split at h
        next hpermit =>
          obtain ⟨b, hb, rfl⟩ := Option.map_eq_some_iff.mp h
          exact .search hc hpermit hb
        next hpermit =>
          cases h
          exact .page hc (by simpa using hpermit)
  | turn k a =>
      simp only at h
      split at h
      next => cases h
      next c hc =>
        split at h
        next => cases h
        next e he =>
          obtain ⟨pc, hpc, rfl⟩ := Option.map_eq_some_iff.mp h
          exact .turn hc he hpc
  | gone k =>
      simp only at h
      split at h
      next i query reply hc =>
        obtain ⟨b, hb, rfl⟩ := Option.map_eq_some_iff.mp h
        exact .gone hc hb
      next => cases h

/-- The stores run as before. -/
theorem Steps.bodies_step {serde : IgnoredAny} {s s' : State} {e : Event}
    (h : Steps serde s e s') :
    s'.bodies = s.bodies ∨ ∃ d, Bodies.step serde s.bodies d = some s'.bodies := by
  cases h with
  | bodies _ hb => exact .inr ⟨_, hb⟩
  | search _ _ hb => exact .inr ⟨_, hb⟩
  | gone _ hb => exact .inr ⟨_, hb⟩
  | _ => exact .inl rfl

theorem bodies_of_reachable {serde : IgnoredAny} {s : State}
    (h : (inspection serde).Reachable s) : (bodies serde).Reachable s.bodies :=
  h.project State.bodies rfl fun hstep => (step_steps hstep).bodies_step

/-! ## What a call has found out -/

/-- The range of a search is part of what has been published. -/
structure Ranged (e : Entry) (start end_ : Nat) : Prop where
  le : start ≤ end_
  total : end_ ≤ e.total

/-- What a search has found out of its body. -/
def Found (e : Entry) (f : Files) (needle : List UInt8) (start end_ : Nat) : Pc → Prop
  | .start => True
  | .ranged => Ranged e start end_
  | .scanning prefix_ position matched => Ranged e start end_ ∧
      position ≤ min end_ (start + scanBytes) ∧
      scan (f.recorded.drop start) needle start end_ (fun _ => false) =
        scanRest f.recorded needle prefix_ end_ (min end_ (start + scanBytes)) position matched
  | .returned (.ok (.step step)) => Ranged e start end_ ∧
      scan (f.recorded.drop start) needle start end_ (fun _ => false) = some (.ok step)
  | .returned (.error _) => True
  | _ => False

/-- A page of a layout. -/
def pageOf (layout : List UInt8) (offset length : Nat) : BodyPage where
  total := layout.length
  bytes := (layout.drop offset).take (min length (layout.length - offset))
  state := .complete

/-- What a page of the layout has found out. -/
def Shown (serde : IgnoredAny) (e : Entry) (f : Files) (offset length : Nat) : Pc → Prop
  | .start => True
  | .opened layout total => e.result = .complete ∧ LaidOut serde f.recorded layout ∧
      total = layout.length
  | .read page => e.result = .complete ∧ ∃ layout, LaidOut serde f.recorded layout ∧
      offset ≤ layout.length ∧ page = pageOf layout offset length
  | .returned (.ok (.page page)) => e.result = .complete ∧ ∃ layout,
      LaidOut serde f.recorded layout ∧ offset ≤ layout.length ∧
      page = pageOf layout offset length
  | .returned (.error _) => True
  | _ => False

/-- **What a call has found out.** -/
def Learnt (serde : IgnoredAny) (e : Entry) (f : Files) : Query → Pc → Prop
  | .search needle start end_, pc => 0 < needle.length ∧ needle.length ≤ 4096 ∧
      Found e f needle start end_ pc
  | .jsonPage offset length, pc => Shown serde e f offset length pc

section Learning

variable {serde : IgnoredAny} {e e' : Entry} {f f' : Files} {needle : List UInt8}
  {start end_ offset length : Nat} {pc pc' : Pc} {a : ReadAnswer}

theorem Found.grows (h : Found e f needle start end_ pc) (hfile : Promised e f)
    (hgrows : Grows e f e' f') : Found e' f' needle start end_ pc := by
  have hranged (h : Ranged e start end_) : Ranged e' start end_ :=
    ⟨h.le, Nat.le_trans h.total hgrows.total⟩
  have hend (h : Ranged e start end_) : end_ ≤ f.recorded.length :=
    Nat.le_trans h.total hfile.le
  cases pc with
  | start => trivial
  | ranged => exact hranged h
  | scanning prefix_ position matched =>
      obtain ⟨hrange, hposition, hscan⟩ := h
      refine ⟨hranged hrange, hposition, ?_⟩
      rw [scan_extended hgrows.recorded hrange.le (hend hrange), hscan,
        scanRest_extended hgrows.recorded hposition]
      have hle := hend hrange
      omega
  | returned reply =>
      cases reply with
      | error message => trivial
      | ok reply =>
          cases reply with
          | step step =>
              obtain ⟨hrange, hscan⟩ := h
              refine ⟨hranged hrange, ?_⟩
              rw [scan_extended hgrows.recorded hrange.le (hend hrange)]
              exact hscan
          | page page => exact h.elim
  | opened layout total => exact h.elim
  | read page => exact h.elim

theorem Shown.grows (h : Shown serde e f offset length pc) (hgrows : Grows e f e' f') :
    Shown serde e' f' offset length pc := by
  have hpage {page : BodyPage} (h : e.result = .complete ∧ ∃ layout,
      LaidOut serde f.recorded layout ∧ offset ≤ layout.length ∧
      page = pageOf layout offset length) : e'.result = .complete ∧ ∃ layout,
      LaidOut serde f'.recorded layout ∧ offset ≤ layout.length ∧
      page = pageOf layout offset length := by
    obtain ⟨hcomplete', -, hrecorded⟩ := hgrows.complete h.1
    rw [hrecorded]
    exact ⟨hcomplete', h.2⟩
  cases pc with
  | start => trivial
  | opened layout total =>
      obtain ⟨hcomplete', -, hrecorded⟩ := hgrows.complete h.1
      show _ ∧ LaidOut serde f'.recorded layout ∧ _
      rw [hrecorded]
      exact ⟨hcomplete', h.2⟩
  | read page => exact hpage h
  | returned reply =>
      cases reply with
      | error message => trivial
      | ok reply =>
          cases reply with
          | page page => exact hpage h
          | step step => exact h.elim
  | ranged => exact h.elim
  | scanning prefix_ position matched => exact h.elim

/-- What a call has found out stays true. -/
theorem Learnt.grows {query : Query} (h : Learnt serde e f query pc) (hfile : Promised e f)
    (hgrows : Grows e f e' f') : Learnt serde e' f' query pc := by
  cases query with
  | search needle start end_ => exact ⟨h.1, h.2.1, h.2.2.grows hfile hgrows⟩
  | jsonPage offset length => exact Shown.grows h hgrows

/-- A turn of a search keeps what it has found out. -/
theorem Found.step (h : Found e f needle start end_ pc)
    (hstep : searchStep e f needle start end_ pc a = some pc') :
    Found e f needle start end_ pc' := by
  unfold searchStep at hstep
  split at hstep
  · split at hstep
    next => cases hstep; trivial
    next hrange =>
      cases hstep
      exact ⟨by omega, by omega⟩
  · split at hstep
    next =>
      obtain ⟨prefix_, htable, rfl⟩ := Option.map_eq_some_iff.mp hstep
      have hle := h.le
      exact ⟨h, by omega, scan_eq_scanRest htable⟩
    next => cases hstep; trivial
  · split at hstep
    next => cases hstep; trivial
    next => cases hstep
  · obtain ⟨hrange, hposition, hscan⟩ := h
    simp only at hstep
    split at hstep
    next hlt =>
      split at hstep
      next => cases hstep; trivial
      next =>
        obtain ⟨turned, hturn, rfl⟩ := Option.map_eq_some_iff.mp hstep
        rw [scanRest_turn hlt, hturn, Option.bind_some] at hscan
        cases turned with
        | failed message => trivial
        | found step => exact ⟨hrange, hscan⟩
        | next position' matched' => exact ⟨hrange, (scanTurn_next hlt hturn).2, hscan⟩
    next hstop =>
      obtain ⟨step, hend, rfl⟩ := Option.map_eq_some_iff.mp hstep
      rw [scanRest_stop hstop, hend] at hscan
      exact ⟨hrange, hscan⟩
  · split at hstep
    next => cases hstep; trivial
    next => cases hstep
  · cases hstep

theorem Shown.step (hview : Bodies.Shows serde f e) (h : Shown serde e f offset length pc)
    (hstep : jsonPageStep e f offset length pc a = some pc') :
    Shown serde e f offset length pc' := by
  unfold jsonPageStep at hstep
  split at hstep
  · split at hstep
    next => cases hstep; trivial
    next layout hlayout =>
      cases hstep
      obtain ⟨-, hcomplete, hlength, hlaid⟩ := hview.view layout hlayout
      exact ⟨hcomplete, hlaid, hlength.symm⟩
  · split at hstep
    next => cases hstep; trivial
    next => cases hstep
  · obtain ⟨hcomplete, hlaid, rfl⟩ := h
    split at hstep
    next => cases hstep; trivial
    next hoffset =>
      split at hstep
      next => cases hstep; trivial
      next hread =>
        cases hstep
        refine ⟨hcomplete, _, hlaid, by omega, ?_⟩
        unfold readExact at hread
        split at hread
        next =>
          obtain ⟨rfl, -⟩ := Prod.mk.inj (Option.some.inj hread)
          rfl
        next => cases hread
  · split at hstep
    next => cases hstep; trivial
    next => cases hstep
  · split at hstep
    next => cases hstep; trivial
    next => cases hstep; exact h
  · cases hstep

theorem Learnt.step {query : Query} (hview : Bodies.Shows serde f e)
    (h : Learnt serde e f query pc) (hstep : callStep e f query pc a = some pc') :
    Learnt serde e f query pc' := by
  cases query with
  | search needle start end_ => exact ⟨h.1, h.2.1, h.2.2.step hstep⟩
  | jsonPage offset length => exact Shown.step hview h hstep

end Learning

/-! ## In every run -/

/-- Every call has found out what is true of its body. -/
def Informed (serde : IgnoredAny) (s : State) : Prop :=
  ∀ (k : Nat) (c : Call), s.calls[k]? = some c → ∃ e, s.bodies.budget.entries[c.entry]? = some e ∧
    Learnt serde e (s.bodies.files c.entry) c.query c.pc

/-- A call that gets as far as its closure starts on an entry that is there. -/
theorem ask_eq_ok {s : State} {side : Side} {id : Nat} {query : Query} {c : Call}
    (h : s.ask side id query = .ok c) :
    c.entry < s.bodies.budget.entries.length ∧ ∀ serde e f, Learnt serde e f c.query c.pc := by
  unfold State.ask at h
  cases query with
  | search needle start end_ =>
      simp only at h
      split at h
      next => cases h
      next hneedle =>
        split at h
        next => cases h
        next i hi =>
          split at h
          next => cases h
          next =>
            cases h
            exact ⟨find_lt hi, fun _ _ _ => ⟨by omega, by omega, trivial⟩⟩
  | jsonPage offset length =>
      simp only at h
      split at h
      next => cases h
      next =>
        split at h
        next => cases h
        next i hi =>
          cases h
          exact ⟨find_lt hi, fun _ _ _ => trivial⟩

/-- A search takes a permit, and nothing else. -/
theorem search_eq_some {serde : IgnoredAny} {s b : Bodies.State}
    (h : Bodies.step serde s .search = some b) : 0 < s.available ∧
      b = { s with available := s.available - 1, searches := s.searches + 1 } := by
  have h : (if s.available = 0 then none else some
      { s with available := s.available - 1, searches := s.searches + 1 }) = some b := h
  split at h
  next => cases h
  next havailable => exact ⟨Nat.pos_of_ne_zero havailable, (Option.some.inj h).symm⟩

theorem searchEnd_eq_some {serde : IgnoredAny} {s b : Bodies.State}
    (h : Bodies.step serde s .searchEnd = some b) : 0 < s.searches ∧
      b = { s with available := s.available + 1, searches := s.searches - 1 } := by
  have h : (if s.searches = 0 then none else some
      { s with available := s.available + 1, searches := s.searches - 1 }) = some b := h
  split at h
  next => cases h
  next hsearches => exact ⟨Nat.pos_of_ne_zero hsearches, (Option.some.inj h).symm⟩

theorem informed_of_reachable {serde : IgnoredAny} {s : State}
    (h : (inspection serde).Reachable s) : Informed serde s := by
  refine h.invariant_along (I := Informed serde) (fun k c hc => ?_) ?_
  · simp [inspection, start] at hc
  intro s s' event hs ih _ hstep
  have hbodies := bodies_of_reachable hs
  -- what a call has found out before a step of the stores
  have hkept {b : Bodies.State} {d : Bodies.Event} (hb : Bodies.step serde s.bodies d = some b)
      {k : Nat} {c : Call} (hc : s.calls[k]? = some c) :
      ∃ e, b.budget.entries[c.entry]? = some e ∧
        Learnt serde e (b.files c.entry) c.query c.pc := by
    obtain ⟨e, he, hlearnt⟩ := ih k c hc
    obtain ⟨e', he', hgrows⟩ := (Bodies.step_steps hb).grown
      (staffed_of_reachable (budget_of_reachable hbodies)) (written_of_reachable hbodies)
      c.entry e he
    exact ⟨e', he', hlearnt.grows (promised_of_reachable hbodies he) hgrows⟩
  -- a call that has just been made
  have hnew {side : Side} {id : Nat} {query : Query} {c : Call} (hask : s.ask side id query = .ok c)
      (b : Bodies.State) (hbudget : b.budget = s.bodies.budget) :
      ∃ e, b.budget.entries[c.entry]? = some e ∧
        Learnt serde e (b.files c.entry) c.query c.pc := by
    obtain ⟨hlt, hlearnt⟩ := ask_eq_ok hask
    rw [hbudget]
    exact ⟨_, List.getElem?_eq_getElem hlt, hlearnt _ _ _⟩
  intro k c hc
  cases step_steps hstep with
  | bodies _ hb => exact hkept hb hc
  | refuse => exact ih k c hc
  | search hask _ hb =>
      by_cases hk : k < s.calls.length
      · rw [List.getElem?_append_left hk] at hc
        exact hkept hb hc
      · obtain rfl := List.mem_singleton.mp (List.mem_of_getElem?
          (List.getElem?_append_right (Nat.not_lt.mp hk) ▸ hc))
        obtain ⟨-, rfl⟩ := search_eq_some hb
        exact hnew hask _ rfl
  | page hask _ =>
      by_cases hk : k < s.calls.length
      · rw [List.getElem?_append_left hk] at hc
        exact ih k c hc
      · obtain rfl := List.mem_singleton.mp (List.mem_of_getElem?
          (List.getElem?_append_right (Nat.not_lt.mp hk) ▸ hc))
        exact hnew hask _ rfl
  | turn hc' he hpc =>
      rename_i k' a c' e pc
      by_cases hk : k' = k
      · subst hk
        rw [List.getElem?_set_self (List.getElem?_eq_some_iff.mp hc').1] at hc
        cases hc
        obtain ⟨e', he', hlearnt⟩ := ih k' c' hc'
        cases he.symm.trans he'
        exact ⟨e, he, hlearnt.step ((laid_of_reachable hbodies).entry _ e he) hpc⟩
      · rw [List.getElem?_set_ne hk] at hc
        exact ih k c hc
  | gone hc' hb =>
      rename_i k' i query reply b
      by_cases hk : k' = k
      · subst hk
        rw [List.getElem?_set_self (List.getElem?_eq_some_iff.mp hc').1] at hc
        cases hc
        obtain ⟨e, he, hlearnt⟩ := hkept hb hc'
        exact ⟨e, he, hlearnt⟩
      · rw [List.getElem?_set_ne hk] at hc
        exact hkept hb hc

/-- A body that has been found out about, in a later state. -/
theorem informed_of_run {serde : IgnoredAny} {s t : State} {es : List Event}
    (h : (inspection serde).Reachable s) (hrun : (inspection serde).runFrom s es = some t)
    {k : Nat} {c : Call} (hc : s.calls[k]? = some c) :
    ∃ e, t.bodies.budget.entries[c.entry]? = some e ∧ Promised e (t.bodies.files c.entry) ∧
      Learnt serde e (t.bodies.files c.entry) c.query c.pc := by
  have hinvariant : (inspection serde).Reachable t ∧ s.bodies.Grown t.bodies c.entry := by
    refine Machine.runFrom_invariant
      (I := fun u => (inspection serde).Reachable u ∧ s.bodies.Grown u.bodies c.entry) ?_
      ⟨h, fun e he => ⟨e, he, .refl ..⟩⟩ hrun
    rintro u e u' ⟨hu, hgrown⟩ hstep
    refine ⟨.step hu trivial hstep, ?_⟩
    rcases (step_steps hstep).bodies_step with hsame | ⟨d, hd⟩
    · rw [hsame]
      exact hgrown
    · have hbodies := bodies_of_reachable hu
      exact hgrown.trans ((Bodies.step_steps hd).grown
        (staffed_of_reachable (budget_of_reachable hbodies)) (written_of_reachable hbodies) _)
  obtain ⟨e, he, hlearnt⟩ := informed_of_reachable h k c hc
  obtain ⟨e', he', hgrows⟩ := hinvariant.2 e he
  have hfile := promised_of_reachable (bodies_of_reachable h) he
  exact ⟨e', he', promised_of_reachable (bodies_of_reachable hinvariant.1) he',
    hlearnt.grows hfile hgrows⟩

/-- The turn of a search goes on, or finds a match: no index is out of its range, and the file has
what is still to be read. -/
theorem scanTurn_of_found {e : Entry} {f : Files} {needle : List UInt8} {prefix_ : List Nat}
    {start end_ position matched : Nat} (hne : 0 < needle.length) (hmax : needle.length ≤ 4096)
    (hfile : Promised e f) (h : Found e f needle start end_ (.scanning prefix_ position matched))
    (hlt : position < min end_ (start + scanBytes)) :
    ∃ turned, scanTurn needle prefix_ (min end_ (start + scanBytes)) f.recorded position matched =
      some turned ∧ ∀ message, turned ≠ .failed message := by
  obtain ⟨hrange, -, hscan⟩ := h
  obtain ⟨step, hstep, -⟩ := scan_spec hne hmax hrange.le (Nat.le_trans hrange.total hfile.le)
  rw [scanRest_turn hlt, hstep] at hscan
  obtain ⟨turned, hturn, hrest⟩ := Option.bind_eq_some_iff.mp hscan.symm
  refine ⟨turned, hturn, fun message hfailed => ?_⟩
  subst hfailed
  cases hrest

/-- A call that has not returned can go on. -/
theorem Learnt.moves {serde : IgnoredAny} {e : Entry} {f : Files} {query : Query} {pc : Pc}
    (h : Learnt serde e f query pc) (hfile : Promised e f)
    (hpc : ∀ reply, pc ≠ .returned reply) : ∃ pc', callStep e f query pc .go = some pc' := by
  cases query with
  | search needle start end_ =>
      obtain ⟨hne, hmax, hfound⟩ := h
      show ∃ pc', searchStep e f needle start end_ pc .go = some pc'
      cases pc with
      | start =>
          simp only [searchStep]
          split <;> exact ⟨_, rfl⟩
      | ranged =>
          obtain ⟨prefix_, htable, -⟩ := Kmp.table_spec (List.ne_nil_of_length_pos hne)
          simp only [searchStep]
          simp only [htable]
          split <;> exact ⟨_, rfl⟩
      | scanning prefix_ position matched =>
          simp only [searchStep]
          by_cases hlt : position < min end_ (start + scanBytes)
          · obtain ⟨turned, hturn, -⟩ := scanTurn_of_found hne hmax hfile hfound hlt
            rw [if_pos hlt, hturn]
            split <;> exact ⟨_, rfl⟩
          · obtain ⟨hrange, -, hscan⟩ := hfound
            obtain ⟨step, hstep, -⟩ :=
              scan_spec hne hmax hrange.le (Nat.le_trans hrange.total hfile.le)
            rw [scanRest_stop hlt, hstep] at hscan
            obtain ⟨step', hend, -⟩ := Option.map_eq_some_iff.mp hscan.symm
            rw [if_neg hlt, hend]
            exact ⟨_, rfl⟩
      | opened layout total => exact hfound.elim
      | read page => exact hfound.elim
      | returned reply => exact absurd rfl (hpc reply)
  | jsonPage offset length =>
      show ∃ pc', jsonPageStep e f offset length pc .go = some pc'
      cases pc with
      | start =>
          simp only [jsonPageStep]
          split <;> exact ⟨_, rfl⟩
      | opened layout total =>
          simp only [jsonPageStep]
          split
          next => exact ⟨_, rfl⟩
          next => split <;> exact ⟨_, rfl⟩
      | read page =>
          simp only [jsonPageStep]
          split <;> exact ⟨_, rfl⟩
      | returned reply => exact absurd rfl (hpc reply)
      | ranged => exact h.elim
      | scanning prefix_ position matched => exact h.elim

theorem call_moves {serde : IgnoredAny} {s : State} (h : (inspection serde).Reachable s) {k : Nat}
    {c : Call} (hc : s.calls[k]? = some c) (hpc : ∀ reply, c.pc ≠ .returned reply) :
    ∃ s', step serde s (.turn k .go) = some s' := by
  obtain ⟨e, he, hlearnt⟩ := informed_of_reachable h k c hc
  obtain ⟨pc, hstep⟩ := hlearnt.moves (promised_of_reachable (bodies_of_reachable h) he) hpc
  refine ⟨{ s with calls := s.calls.set k { c with pc := pc } }, ?_⟩
  simp only [step, hc, he, hstep, Option.map_some]

/-! ## Permits -/

theorem searches_of_admitted {serde : IgnoredAny} {s : Bodies.State} {calls : List Call}
    {e : Bodies.Event} {b : Bodies.State} (hadmits : admits calls e = true)
    (h : Bodies.step serde s e = some b) : b.searches = s.searches := by
  cases Bodies.step_steps h with
  | view _ _ hviewed => cases hviewed <;> rfl
  | permits hanalyses =>
      cases e with
      | search => cases hadmits
      | searchEnd => cases hadmits
      | jobEnd k =>
          simp only [Bodies.step] at h
          split at h
          · split at h
            · exact (congrArg Bodies.State.searches (Option.some.inj h)).symm
            · cases h
          · cases h
      | _ => cases hanalyses
  | _ => rfl

/-- The permits of `analysis`: free ones, those of layout jobs, and those of searches. -/
structure Permitted (s : State) : Prop where
  sum : s.bodies.available + s.bodies.jobs.length + s.bodies.searches = 2
  calls : s.bodies.searches = s.calls.countP (·.permit)

theorem permitted_of_reachable {serde : IgnoredAny} {s : State}
    (h : (inspection serde).Reachable s) : Permitted s := by
  refine h.invariant (I := Permitted) ⟨rfl, rfl⟩ ?_
  intro s s' event ih _ hstep
  cases step_steps hstep with
  | bodies hadmits hb =>
      refine ⟨?_, (searches_of_admitted hadmits hb).trans ih.calls⟩
      have hsum := ih.sum
      cases Bodies.step_steps hb with
      | permits _ hsame => exact hsame.trans hsum
      | view _ _ hviewed =>
          cases hviewed with
          | started _ _ _ havailable =>
              show s.bodies.available - 1 + (s.bodies.jobs ++ [_]).length + s.bodies.searches = 2
              rw [List.length_append, List.length_singleton]
              omega
          | _ => exact hsum
      | _ => exact hsum
  | refuse => exact ih
  | search _ hpermit hb =>
      obtain ⟨havailable, rfl⟩ := search_eq_some hb
      have hsum := ih.sum
      refine ⟨?_, ?_⟩
      · show s.bodies.available - 1 + s.bodies.jobs.length + (s.bodies.searches + 1) = 2
        omega
      · show s.bodies.searches + 1 = (s.calls ++ [_]).countP _
        rw [List.countP_append, ih.calls, List.countP_singleton, if_pos hpermit]
  | page _ hpermit =>
      refine ⟨ih.sum, ?_⟩
      show s.bodies.searches = (s.calls ++ [_]).countP _
      rw [List.countP_append, ih.calls, List.countP_singleton, if_neg (by simp [hpermit]),
        Nat.add_zero]
  | turn hc he hpc =>
      rename_i c e pc
      obtain ⟨hlt, hget⟩ := List.getElem?_eq_some_iff.mp hc
      refine ⟨ih.sum, ?_⟩
      show s.bodies.searches = (s.calls.set _ _).countP _
      rw [ih.calls, List.countP_set hlt, hget]
      cases hpermit : c.permit with
      | false => rfl
      | true =>
          have hpos : 0 < s.calls.countP (·.permit) :=
            List.countP_pos_iff.mpr ⟨c, List.mem_of_getElem? hc, hpermit⟩
          exact (Nat.sub_add_cancel hpos).symm
  | gone hc hb =>
      obtain ⟨hsearches, rfl⟩ := searchEnd_eq_some hb
      obtain ⟨hlt, hget⟩ := List.getElem?_eq_some_iff.mp hc
      have hsum := ih.sum
      refine ⟨?_, ?_⟩
      · show s.bodies.available + 1 + s.bodies.jobs.length + (s.bodies.searches - 1) = 2
        omega
      · show s.bodies.searches - 1 = (s.calls.set _ _).countP _
        rw [ih.calls, List.countP_set hlt, hget]
        simp

/-! ## Searches -/

/-- The calls of a search that is resumed from `next_offset`, up to one that reports a match or the
end of the range. -/
inductive Chain (s : State) (i : Nat) (needle : List UInt8) (end_ : Nat) :
    Nat → SearchStep → Prop
  | last {k cursor : Nat} {step : SearchStep} {permit : Bool} :
      s.calls[k]? = some ⟨i, .search needle cursor end_, .returned (.ok (.step step)), permit⟩ →
      step.found.isSome ∨ step.done = true → Chain s i needle end_ cursor step
  | more {k cursor : Nat} {step last : SearchStep} {permit : Bool} :
      s.calls[k]? = some ⟨i, .search needle cursor end_, .returned (.ok (.step step)), permit⟩ →
      step.found = none → step.done = false → Chain s i needle end_ step.nextOffset last →
      Chain s i needle end_ cursor last

/-- **What the searches of `s` have found, seen from a later state `t`.** -/
structure Searched (serde : IgnoredAny) (s t : State) : Prop where
  /-- A call has returned what one scan of the recording returns, as it is from then on. -/
  returned : ∀ (k i : Nat) (needle : List UInt8) (start end_ : Nat) (step : SearchStep)
    (permit : Bool), s.calls[k]? =
      some ⟨i, .search needle start end_, .returned (.ok (.step step)), permit⟩ →
    start ≤ end_ ∧ end_ ≤ (t.bodies.files i).recorded.length ∧
      scan ((t.bodies.files i).recorded.drop start) needle start end_ (fun _ => false) =
        some (.ok step) ∧
      StepOk (t.bodies.files i).recorded needle start end_ step
  /-- The calls of a search that is resumed find its first match, if there is one. -/
  first : ∀ (i : Nat) (needle : List UInt8) (start end_ : Nat) (step : SearchStep),
    Chain s i needle end_ start step → ∀ f, step.found = some f ↔
      IsLeast { g | MatchIn (t.bodies.files i).recorded needle start end_ g } f
  /-- A search that has not returned can go on, -/
  moves : ∀ (k i : Nat) (needle : List UInt8) (start end_ : Nat) (pc : Pc) (permit : Bool),
    s.calls[k]? = some ⟨i, .search needle start end_, pc, permit⟩ →
    (∀ reply, pc ≠ .returned reply) → ∃ s', step serde s (.turn k .go) = some s'
  /-- and what it has still to read is in the file. -/
  exact : ∀ (k i : Nat) (needle : List UInt8) (start end_ : Nat) (prefix_ : List Nat)
    (position matched : Nat) (permit : Bool), s.calls[k]? =
      some ⟨i, .search needle start end_, .scanning prefix_ position matched, permit⟩ →
    position ≤ end_ ∧ end_ ≤ (s.bodies.files i).recorded.length
  /-- Two analyses at most are at work. -/
  permits : s.bodies.available + s.bodies.jobs.length + s.calls.countP (·.permit) = 2

/-- **A search that runs beside the recording finds the first match of its range**, in every run
and whatever follows. -/
theorem search_calls_find_the_first_match {serde : IgnoredAny} {s t : State} {es : List Event}
    (h : (inspection serde).Reachable s) (hrun : (inspection serde).runFrom s es = some t) :
    Searched serde s t := by
  have hreturned {k i : Nat} {needle : List UInt8} {start end_ : Nat} {step : SearchStep}
      {permit : Bool} (hc : s.calls[k]? =
        some ⟨i, .search needle start end_, .returned (.ok (.step step)), permit⟩) :
      start ≤ end_ ∧ end_ ≤ (t.bodies.files i).recorded.length ∧
        scan ((t.bodies.files i).recorded.drop start) needle start end_ (fun _ => false) =
          some (.ok step) ∧
        StepOk (t.bodies.files i).recorded needle start end_ step := by
    obtain ⟨e, -, hfile, hne, hmax, hrange, hscan⟩ := informed_of_run h hrun hc
    have hend := Nat.le_trans hrange.total hfile.le
    obtain ⟨step', hscan', hok⟩ := scan_spec hne hmax hrange.le hend
    cases hscan.symm.trans hscan'
    exact ⟨hrange.le, hend, hscan, hok⟩
  refine ⟨fun k i needle start end_ step permit hc => hreturned hc,
    fun i needle start end_ step hchain f => ?_,
    fun k i needle start end_ pc permit hc hpc => call_moves h hc hpc,
    fun k i needle start end_ prefix_ position matched permit hc => ?_, ?_⟩
  · induction hchain with
    | last hc hlast =>
        rename_i k cursor step permit
        have hok := (hreturned hc).2.2.2
        refine ⟨hok.found f, fun hleast => ?_⟩
        cases hfound : step.found with
        | none =>
            rw [hfound] at hlast
            exact absurd hleast.1
              (hok.missed hfound (hlast.resolve_left (by simp)) f)
        | some g => rw [(hok.found g hfound).unique hleast]
    | more hc hnone hmore _ ih =>
        have hok := (hreturned hc).2.2.2
        have hsame := Set.ext fun g => hok.resumes hnone hmore g
        rw [ih]
        exact hsame ▸ Iff.rfl
  · obtain ⟨e, he, hne, hmax, hrange, hposition, -⟩ := informed_of_reachable h k _ hc
    have hfile := promised_of_reachable (bodies_of_reachable h) he
    exact ⟨by omega, Nat.le_trans hrange.total hfile.le⟩
  · have hpermitted := permitted_of_reachable h
    rw [← hpermitted.calls]
    exact hpermitted.sum

/-- Three bytes are recorded, and a search of them begins. -/
def searchBegins : List Event :=
  ([Bodies.Event.record .response 1 100] ++ chunkWritten [1, 2, 3]).map .bodies ++
    [.call .response 1 (.search [2, 3] 0 3), .turn 0 .go, .turn 0 .go]

/-- A fourth byte is written before the search reads on. -/
def searchEnds : List Event :=
  (chunkWritten [4]).map .bodies ++ [.turn 0 .go, .gone 0]

theorem search_beside_recording_finds :
    ∃ s t, s.calls[0]? = some ⟨0, .search [2, 3] 0 3, .returned (.ok (.step
        ⟨some 1, 2, 3, true⟩)), false⟩ ∧
      (t.bodies.files 0).recorded = [1, 2, 3, 4] ∧ Searched emptyArray s t := by
  obtain ⟨s, hs⟩ := Option.isSome_iff_exists.mp (by decide +kernel :
    ((inspection emptyArray).run (searchBegins ++ searchEnds)).isSome = true)
  have hcall : ((inspection emptyArray).run (searchBegins ++ searchEnds)).map
      (fun s => s.calls[0]?) = some (some ⟨0, .search [2, 3] 0 3, .returned (.ok (.step
        ⟨some 1, 2, 3, true⟩)), false⟩) := by
    decide +kernel
  have hrecorded : ((inspection emptyArray).run (searchBegins ++ searchEnds)).map
      (fun s => (s.bodies.files 0).recorded) = some [1, 2, 3, 4] := by
    decide +kernel
  rw [hs] at hcall hrecorded
  exact ⟨s, s, Option.some.inj hcall, Option.some.inj hrecorded,
    @search_calls_find_the_first_match emptyArray s s [] (Machine.reachable_of_run _ hs) rfl⟩

/-! ## Pages of the layout -/

/-- A body has one layout. -/
theorem laidOut_unique {serde : IgnoredAny} {bytes layout layout' : List UInt8}
    (h : LaidOut serde bytes layout) (h' : LaidOut serde bytes layout') : layout = layout' := by
  obtain ⟨s, hs⟩ := h.written
  obtain ⟨s', hs'⟩ := h'.written
  exact (Prod.mk.inj (Except.ok.inj (hs.symm.trans hs'))).2

/-- It differs from the body in white space only. -/
theorem laidOut_strip {serde : IgnoredAny} {bytes layout : List UInt8}
    (h : LaidOut serde bytes layout) :
    JsonSyntax.strip .outside layout = JsonSyntax.strip .outside bytes := by
  obtain ⟨s, hs⟩ := h.written
  obtain ⟨laid, hlaid, hstrip, -⟩ := Layout.foldlM_write_strip Layout.regular_new hs
  obtain rfl : layout = laid := hlaid
  exact hstrip

theorem take_min_drop {l : List UInt8} {offset length : Nat} :
    (l.drop offset).take (min length (l.length - offset)) = (l.drop offset).take length := by
  rw [← List.length_drop, List.take_eq_take_iff]
  omega

/-- Pages of the layout of entry `i` that calls have returned, each from where the one before it
ends. -/
inductive Consecutive (s : State) (i : Nat) : Nat → List BodyPage → Prop
  | nil (offset : Nat) : Consecutive s i offset []
  | cons {k offset length : Nat} {page : BodyPage} {permit : Bool} {pages : List BodyPage} :
      s.calls[k]? = some ⟨i, .jsonPage offset length, .returned (.ok (.page page)), permit⟩ →
      Consecutive s i (offset + page.bytes.length) pages →
      Consecutive s i offset (page :: pages)

theorem Consecutive.mem {s : State} {i offset : Nat} {pages : List BodyPage} {page : BodyPage}
    (h : Consecutive s i offset pages) (hpage : page ∈ pages) :
    ∃ (k offset length : Nat) (permit : Bool), s.calls[k]? =
      some ⟨i, .jsonPage offset length, .returned (.ok (.page page)), permit⟩ := by
  induction h with
  | nil offset => cases hpage
  | cons hc _ ih =>
      rcases List.mem_cons.mp hpage with rfl | hpage
      · exact ⟨_, _, _, _, hc⟩
      · exact ih hpage

/-- **What the calls of `s` show of the layouts, seen from a later state `t`.** -/
structure Displayed (serde : IgnoredAny) (s t : State) : Prop where
  /-- A page is a part of the layout of the recorded body, whatever has become of its file. -/
  page : ∀ (k i offset length : Nat) (page : BodyPage) (permit : Bool), s.calls[k]? =
      some ⟨i, .jsonPage offset length, .returned (.ok (.page page)), permit⟩ →
    ∃ layout, LaidOut serde (t.bodies.files i).recorded layout ∧ offset ≤ layout.length ∧
      page = pageOf layout offset length
  /-- Two pages of a body are of one layout. -/
  total : ∀ (k k' i offset offset' length length' : Nat) (page page' : BodyPage)
    (permit permit' : Bool), s.calls[k]? =
      some ⟨i, .jsonPage offset length, .returned (.ok (.page page)), permit⟩ →
    s.calls[k']? =
      some ⟨i, .jsonPage offset' length', .returned (.ok (.page page')), permit'⟩ →
    page.total = page'.total
  /-- Consecutive pages up to the total are the layout, and the recorded body but for the white
  space outside its strings. -/
  whole : ∀ (i : Nat) (pages : List BodyPage) (page : BodyPage), Consecutive s i 0 pages →
    page ∈ pages → (pages.map BodyPage.bytes).flatten.length = page.total →
    LaidOut serde (t.bodies.files i).recorded (pages.map BodyPage.bytes).flatten ∧
      JsonSyntax.strip .outside (pages.map BodyPage.bytes).flatten =
        JsonSyntax.strip .outside (t.bodies.files i).recorded
  /-- A call that has not returned can go on. -/
  moves : ∀ (k i offset length : Nat) (pc : Pc) (permit : Bool),
    s.calls[k]? = some ⟨i, .jsonPage offset length, pc, permit⟩ →
    (∀ reply, pc ≠ .returned reply) → ∃ s', step serde s (.turn k .go) = some s'

/-- **The pages of a JSON layout are parts of one layout of the recorded body**, in every run and
whatever follows. -/
theorem json_pages_show_one_layout {serde : IgnoredAny} {s t : State} {es : List Event}
    (h : (inspection serde).Reachable s) (hrun : (inspection serde).runFrom s es = some t) :
    Displayed serde s t := by
  have hpage {k i offset length : Nat} {page : BodyPage} {permit : Bool} (hc : s.calls[k]? =
        some ⟨i, .jsonPage offset length, .returned (.ok (.page page)), permit⟩) :
      ∃ layout, LaidOut serde (t.bodies.files i).recorded layout ∧ offset ≤ layout.length ∧
        page = pageOf layout offset length := by
    obtain ⟨e, -, -, -, hshown⟩ := informed_of_run h hrun hc
    exact hshown
  -- the pages from an offset are the layout from there, as far as they go
  have hflatten {i offset : Nat} {pages : List BodyPage} {layout : List UInt8}
      (hlaid : LaidOut serde (t.bodies.files i).recorded layout)
      (hpages : Consecutive s i offset pages) : (pages.map BodyPage.bytes).flatten =
        (layout.drop offset).take (pages.map BodyPage.bytes).flatten.length := by
    induction hpages with
    | nil offset => simp
    | cons hc _ ih =>
        rename_i k offset length page permit pages _
        obtain ⟨layout', hlaid', -, rfl⟩ := hpage hc
        obtain rfl := laidOut_unique hlaid hlaid'
        have hbytes : (pageOf layout offset length).bytes = (layout.drop offset).take length :=
          take_min_drop
        rw [hbytes] at ih
        have htake : (layout.drop offset).take ((layout.drop offset).take length).length =
            (layout.drop offset).take length := by
          rw [List.length_take, List.take_eq_take_iff]
          omega
        rw [List.map_cons, List.flatten_cons, List.length_append, hbytes, List.take_add, htake,
          List.drop_drop, ← ih]
  refine ⟨fun k i offset length page permit hc => hpage hc,
    fun k k' i offset offset' length length' page page' permit permit' hc hc' => ?_,
    fun i pages page hpages hmem hlength => ?_,
    fun k i offset length pc permit hc hpc => call_moves h hc hpc⟩
  · obtain ⟨layout, hlaid, -, rfl⟩ := hpage hc
    obtain ⟨layout', hlaid', -, rfl⟩ := hpage hc'
    obtain rfl := laidOut_unique hlaid hlaid'
    rfl
  · obtain ⟨k, offset, length, permit, hc⟩ := hpages.mem hmem
    obtain ⟨layout, hlaid, -, rfl⟩ := hpage hc
    have hall : (pages.map BodyPage.bytes).flatten = layout := by
      rw [hflatten hlaid hpages, hlength]
      exact List.take_length
    rw [hall]
    exact ⟨hlaid, laidOut_strip hlaid⟩

/-- A layout of six bytes is read in two pages, which overlap in time. -/
def layoutPaged : List Event :=
  (emptyArrayStored ++ emptyArrayLaidOut).map .bodies ++
    [.call .response 1 (.jsonPage 0 4), .call .response 1 (.jsonPage 4 4),
      .turn 0 .go, .turn 1 .go, .turn 0 .go, .turn 1 .go, .turn 0 .go, .turn 1 .go]

theorem layout_in_two_pages :
    ∃ s, s.calls = [⟨0, .jsonPage 0 4, .returned (.ok (.page
        ⟨6, [0x5B, 0x0A, 0x20, 0x20], .complete⟩)), false⟩,
      ⟨0, .jsonPage 4 4, .returned (.ok (.page ⟨6, [0x0A, 0x5D], .complete⟩)), false⟩] ∧
      Displayed emptyArray s s := by
  obtain ⟨s, hs⟩ := Option.isSome_iff_exists.mp (by decide +kernel :
    ((inspection emptyArray).run layoutPaged).isSome = true)
  have hcalls : ((inspection emptyArray).run layoutPaged).map (fun s => s.calls) =
      some [⟨0, .jsonPage 0 4, .returned (.ok (.page
        ⟨6, [0x5B, 0x0A, 0x20, 0x20], .complete⟩)), false⟩,
      ⟨0, .jsonPage 4 4, .returned (.ok (.page ⟨6, [0x0A, 0x5D], .complete⟩)), false⟩] := by
    decide +kernel
  rw [hs] at hcalls
  exact ⟨s, Option.some.inj hcalls,
    @json_pages_show_one_layout emptyArray s s [] (Machine.reachable_of_run _ hs) rfl⟩

end SippinSoda.Inspection
