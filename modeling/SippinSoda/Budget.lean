import SippinSoda.Lib.Machine
import Mathlib.Algebra.Ring.Nat
import Mathlib.Data.List.Basic

/-!
# The shared disk budget (`BodyStore` in `proxy/bodies.rs`)

The request and the response store share one counter `used`. Six parties add to it and
take from it: a store operation (`store_redacted_json`, `store_complete`) in a blocking
closure, the worker of a recorded response, the writer of a JSON layout (`BudgetWriter`)
and `json_view` around it, `Entry::cancel` and `Entry::drop`.

Each party is a thread with a program counter and each step performs one operation on an
atomic, or takes or releases an entry's `result` lock together with what it reads under
it. An event names the thread that moves and what its environment answers.

* **ops** — the log of the atomic subtractions and reservations made;
* **lost** — the bytes reserved by store operations whose result nobody received.
-/

namespace SippinSoda.Budget

/-- The range of an `AtomicU64`. -/
def u64 : Nat := 2 ^ 64

/-- `fetch_add`, which wraps. -/
def wrappingAdd (a b : Nat) : Nat := (a + b) % u64

/-- `fetch_sub`, which wraps. -/
def wrappingSub (a b : Nat) : Nat := (a + u64 - b) % u64

/-- `used.checked_add(n).filter(|next| *next <= limit)`. -/
def checkedReserve (used n limit : Nat) : Option Nat :=
  if used + n < u64 ∧ used + n ≤ limit then some (used + n) else none

/-- An operation on an atomic that the log keeps. -/
inductive Op where
  /-- A `fetch_sub` of `amount` from an atomic that held `current`. -/
  | sub (current amount : Nat)
  /-- A reservation that left `used` at `next`, made under `limit`. -/
  | reserve (next limit : Nat)
  deriving DecidableEq, Repr

/-- The two stores of a `shared_pair`. -/
inductive Side where
  | request
  | response
  deriving DecidableEq, Repr

/-- Why a recording is partial. -/
inductive RecordFault where
  | decoding
  | budget
  | storage
  | interrupted
  deriving DecidableEq, Repr

def RecordFault.message : RecordFault → String
  | .decoding => "Body decoding or transport failed."
  | .budget =>
      "Session disk budget reached. Increase the budget before retrying; forwarding continues."
  | .storage => "Body storage write failed; forwarding continues."
  | .interrupted => "Body capture interrupted."

/-- `Entry::result`; `partially` is the source's "partial". -/
inductive RecordState where
  | recording
  | complete
  | partially (fault : RecordFault)
  | unavailable
  deriving DecidableEq, Repr

/-- The error beside the state. -/
def RecordState.error : RecordState → Option String
  | .partially fault => some fault.message
  | .unavailable => some "Unsupported Content-Encoding; response forwarding is unchanged."
  | _ => none

/-- What `Entry::finish` makes of the result: only a recording is finished. -/
def RecordState.finish (result state : RecordState) : RecordState :=
  if result = .recording then state else result

/-- `JsonStatus::state`. -/
inductive JsonState where
  | idle
  | building
  | ready
  | error
  deriving DecidableEq, Repr

/-- An `Entry`, with what the budget depends on. -/
structure Entry where
  side : Side
  id : Nat
  limit : Nat
  /-- Is it the entry its store's map has for `id`? -/
  inStore : Bool
  /-- `false` once the last `Arc` to it is gone. -/
  alive : Bool
  reserved : Nat
  /-- The bytes in its file. -/
  written : Nat
  /-- The length it has published. -/
  total : Nat
  cancelled : Bool
  result : RecordState
  /-- The thread that holds the `result` lock. -/
  lock : Option Nat
  json : JsonState
  /-- The length of the layout file. -/
  layout : Nat
  /-- The cancel token of the layout job. -/
  token : Bool
  deriving DecidableEq, Repr

/-- The recorded raw bytes and the ready layout. -/
def Entry.kept (e : Entry) : Nat := e.written + if e.json = .ready then e.layout else 0

/-- `Entry::finish`. -/
def Entry.finish (e : Entry) (state : RecordState) : Entry :=
  { e with result := e.result.finish state }

/-- The arguments of a store operation; `length` is that of the bytes it stores. -/
structure StoreOp where
  side : Side
  id : Nat
  length : Nat
  limit : Nat
  /-- Is its future still awaited? -/
  awaited : Bool
  deriving DecidableEq, Repr

inductive StorePc where
  | queued
  | reserved
  | releasing
  | stored
  | ended
  deriving DecidableEq, Repr

inductive WorkerPc where
  | head
  | reading
  | reserving (n : Nat)
  | locked (n : Nat)
  | adding (n : Nat)
  | writing (n : Nat)
  | publishing (n : Nat)
  | finishing (state : RecordState)
  | ended
  deriving DecidableEq, Repr

/-- `r` is the writer's own `reserved`. Up to `dropping` the writer exists; `failed` tells
that `format_json` is returning an error, when `BufWriter` may still flush. -/
inductive LayoutPc where
  | writing (r : Nat) (failed : Bool)
  | reserving (r n : Nat) (failed : Bool)
  | adding (r n : Nat) (failed : Bool)
  | dropping (r : Nat) (keep : Bool)
  | unreserving (r : Nat)
  | unbudgeting (r : Nat)
  | checking (r : Nat)
  | givingBack (r : Nat)
  | reporting (outcome : Option Nat)
  | ended
  deriving DecidableEq, Repr

inductive CancelPc where
  | waiting
  | swapping
  | subtracting (v : Nat)
  | ended
  deriving DecidableEq, Repr

/-- A party; all but a store operation act on one entry. -/
inductive Thread where
  | store (op : StoreOp) (pc : StorePc)
  | worker (entry : Nat) (pc : WorkerPc)
  | layout (entry : Nat) (pc : LayoutPc)
  | cancel (entry : Nat) (pc : CancelPc)
  deriving DecidableEq, Repr

structure State where
  used : Nat
  entries : List Entry
  threads : List Thread
  lost : Nat
  ops : List Op
  deriving DecidableEq, Repr

/-! ## Steps on one entry -/

/-- What a step of thread `k` on its entry leaves. -/
structure Local (Pc : Type) where
  used : Nat
  entry : Entry
  pc : Pc
  ops : List Op := []

/-- What a moving thread meets: nothing to decide (`go`), or the outcome of a read, a
write or an await. -/
inductive Answer where
  | go
  | bytes (n : Nat)
  | ok
  | failure (n : Nat)
  | aborted
  deriving DecidableEq, Repr

/-- The worker of `record`. -/
def workerStep (k used : Nat) (e : Entry) : WorkerPc → Answer → Option (Local WorkerPc)
  -- an encoding the match does not know
  | .head, .failure _ => some ⟨used, e, .finishing .unavailable, []⟩
  | .head, .go => some ⟨used, e, if e.cancelled then .ended else .reading, []⟩
  | .reading, .bytes n => some ⟨used, e, if n = 0 then .finishing .complete else .reserving n, []⟩
  | .reading, .failure _ => some ⟨used, e, .finishing (.partially .decoding), []⟩
  | .reading, .aborted => some ⟨used, e, .ended, []⟩
  | .reserving n, .go =>
      if e.lock ≠ none then none
      else if e.cancelled then some ⟨used, e, .ended, []⟩
      else some ⟨used, { e with lock := some k }, .locked n, []⟩
  | .locked n, .go =>
      match checkedReserve used n e.limit with
      | none => some ⟨used, { e with result := .partially .budget, lock := none }, .ended, []⟩
      | some next => some ⟨next, e, .adding n, [.reserve next e.limit]⟩
  | .adding n, .go =>
      some ⟨used, { e with reserved := wrappingAdd e.reserved n, lock := none }, .writing n, []⟩
  | .writing n, .ok => some ⟨used, { e with written := e.written + n }, .publishing n, []⟩
  -- a write that fails or is aborted may have put a part of the bytes in the file
  | .writing n, .failure m => if m ≤ n then
      some ⟨used, { e with written := e.written + m }, .finishing (.partially .storage), []⟩ else none
  | .writing _, .aborted => some ⟨used, e, .ended, []⟩
  | .publishing n, .go => some ⟨used, { e with total := e.total + n }, .head, []⟩
  | .finishing state, .go =>
      if e.lock ≠ none then none else some ⟨used, e.finish state, .ended, []⟩
  | _, _ => none

/-- The layout job: `format_json` through its `BudgetWriter`, and `json_view` after it. -/
def layoutStep (k used : Nat) (e : Entry) : LayoutPc → Answer → Option (Local LayoutPc)
  | .writing r failed, .bytes n =>
      if e.lock ≠ none then none
      else if e.cancelled || e.token then some ⟨used, e, .writing r true, []⟩
      else some ⟨used, { e with lock := some k }, .reserving r n failed, []⟩
  | .writing r _, .failure _ => some ⟨used, e, .writing r true, []⟩
  | .writing r failed, .ok => some ⟨used, e, .dropping r (!failed), []⟩
  | .reserving r n failed, .go =>
      match checkedReserve used n e.limit with
      | none => some ⟨used, { e with lock := none }, .writing r true, []⟩
      | some next => some ⟨next, e, .adding r n failed, [.reserve next e.limit]⟩
  | .adding r n failed, .ok =>
      some ⟨used, { e with reserved := wrappingAdd e.reserved n, lock := none },
        .writing (r + n) failed, []⟩
  -- the reservation stands when writing the file fails
  | .adding r n _, .failure _ =>
      some ⟨used, { e with reserved := wrappingAdd e.reserved n, lock := none },
        .writing (r + n) true, []⟩
  | .dropping r keep, .go =>
      if e.lock ≠ none then none
      else if keep then some ⟨used, e, .checking r, []⟩
      else if e.cancelled then some ⟨used, e, .reporting none, []⟩
      else some ⟨used, { e with lock := some k }, .unreserving r, []⟩
  | .unreserving r, .go =>
      some ⟨used, { e with reserved := wrappingSub e.reserved r }, .unbudgeting r,
        [.sub e.reserved r]⟩
  | .unbudgeting r, .go =>
      some ⟨wrappingSub used r, { e with lock := none }, .reporting none, [.sub used r]⟩
  | .checking r, .go =>
      some ⟨used, e, if e.token || e.cancelled then .givingBack r else .reporting (some r), []⟩
  | .givingBack r, .go =>
      if e.lock ≠ none then none
      else if e.cancelled then some ⟨used, e, .reporting none, []⟩
      else some ⟨used, { e with lock := some k }, .unreserving r, []⟩
  | .reporting (some total), .go =>
      some ⟨used, { e with json := .ready, layout := total }, .ended, []⟩
  | .reporting none, .go => some ⟨used, { e with json := .error }, .ended, []⟩
  | _, _ => none

/-- `Entry::cancel`. -/
def cancelStep (k used : Nat) (e : Entry) : CancelPc → Option (Local CancelPc)
  | .waiting =>
      if e.lock ≠ none then none
      else some ⟨used, { e with cancelled := true, lock := some k }, .swapping, []⟩
  | .swapping => some ⟨used, { e with reserved := 0 }, .subtracting e.reserved, []⟩
  | .subtracting v =>
      some ⟨wrappingSub used v, { e with lock := none }, .ended, [.sub used v]⟩
  | .ended => none

/-- The steps of a thread on its entry, with the thread they leave. -/
def Thread.stepOn (k used : Nat) (e : Entry) : Thread → Answer → Option (Local Thread)
  | .worker i pc, a => (workerStep k used e pc a).map fun l =>
      ⟨l.used, l.entry, .worker i l.pc, l.ops⟩
  | .layout i pc, a => (layoutStep k used e pc a).map fun l =>
      ⟨l.used, l.entry, .layout i l.pc, l.ops⟩
  | .cancel i pc, .go => (cancelStep k used e pc).map fun l =>
      ⟨l.used, l.entry, .cancel i l.pc, l.ops⟩
  | _, _ => none

/-- The entry a thread works on while it has not ended. -/
def Thread.entry? : Thread → Option Nat
  | .store .. => none
  | .worker i pc => if pc = .ended then none else some i
  | .layout i pc => if pc = .ended then none else some i
  | .cancel i pc => if pc = .ended then none else some i

/-! ## The machine -/

inductive Event where
  /-- A store operation is called. -/
  | call (op : StoreOp)
  /-- The blocking closure of a store operation moves on, well or badly. -/
  | closure (k : Nat) (ok : Bool)
  /-- The future of a store operation is dropped at its await. -/
  | dropFuture (k : Nat)
  /-- A store operation inserts its entry. -/
  | insert (k : Nat)
  /-- `record` inserts an entry and spawns its worker. -/
  | record (side : Side) (id limit : Nat)
  /-- `record` finds its entry cancelled and cancels it again. -/
  | recancel (i : Nat)
  /-- A thread steps on its entry. -/
  | step (k : Nat) (answer : Answer)
  /-- `Tap::drop` marks the entry. -/
  | tapDrop (i : Nat)
  /-- `json_view` starts a layout job, or cancels the one there is. -/
  | startLayout (i : Nat)
  | cancelLayout (i : Nat)
  /-- `remove`, or one turn of the loop of `clear`, takes an entry out of its store. -/
  | remove (i : Nat)
  /-- `Entry::drop`, after the last reference. -/
  | drop (i : Nat)
  deriving DecidableEq, Repr

/-- The index of the entry a store has under an id. -/
def find (entries : List Entry) (side : Side) (id : Nat) : Option Nat :=
  entries.findIdx? fun e => e.inStore && e.side == side && e.id == id

/-- `entries.insert(id, entry)`, with the index of the entry it replaces. -/
def insertEntry (entries : List Entry) (e : Entry) : List Entry × Option Nat :=
  match find entries e.side e.id with
  | none => (entries ++ [e], none)
  | some i => (entries.modify i (fun old => { old with inStore := false }) ++ [e], some i)

/-- A new thread. -/
def State.spawn (s : State) (t : Thread) : State := { s with threads := s.threads ++ [t] }

/-- The entry a store operation makes. -/
def StoreOp.newEntry (op : StoreOp) : Entry where
  side := op.side
  id := op.id
  limit := op.limit
  inStore := true
  alive := true
  reserved := op.length
  written := op.length
  total := op.length
  cancelled := false
  result := .complete
  lock := none
  json := .idle
  layout := 0
  token := false

/-- The entry `record` makes. -/
def recordEntry (side : Side) (id limit : Nat) : Entry where
  side := side
  id := id
  limit := limit
  inStore := true
  alive := true
  reserved := 0
  written := 0
  total := 0
  cancelled := false
  result := .recording
  lock := none
  json := .idle
  layout := 0
  token := false

/-- The closure of a store operation: reserve, write the file, and on failure release. A
result that nobody awaits is dropped, its reservation with it. -/
def closureStep (s : State) (k : Nat) (op : StoreOp) : StorePc → Bool → Option State
  | .queued, false => some { s with threads := s.threads.set k (.store op .ended) }
  | .queued, true =>
      match checkedReserve s.used op.length op.limit with
      | none => some { s with threads := s.threads.set k (.store op .ended) }
      | some next => some { s with
          used := next
          threads := s.threads.set k (.store op .reserved)
          ops := .reserve next op.limit :: s.ops }
  | .reserved, false => some { s with threads := s.threads.set k (.store op .releasing) }
  | .reserved, true =>
      if op.awaited then some { s with threads := s.threads.set k (.store op .stored) }
      else some { s with
        threads := s.threads.set k (.store op .ended)
        lost := s.lost + op.length }
  | .releasing, _ => some { s with
      used := wrappingSub s.used op.length
      threads := s.threads.set k (.store op .ended)
      ops := .sub s.used op.length :: s.ops }
  | .stored, _ => none
  | .ended, _ => none

/-- A dropped future no longer receives the closure's result. -/
def dropStep (s : State) (k : Nat) (op : StoreOp) : StorePc → State
  | .stored => { s with
      threads := s.threads.set k (.store op .ended)
      lost := s.lost + op.length }
  | pc => { s with threads := s.threads.set k (.store { op with awaited := false } pc) }

/-- One step of the system. -/
def step (s : State) : Event → Option State
  | .call op => some (s.spawn (.store { op with awaited := true } .queued))
  | .closure k ok =>
      match s.threads[k]? with
      | some (.store op pc) => closureStep s k op pc ok
      | _ => none
  | .dropFuture k =>
      match s.threads[k]? with
      | some (.store op pc) => some (dropStep s k op pc)
      | _ => none
  | .insert k =>
      match s.threads[k]? with
      | some (.store op .stored) =>
          let (entries, previous) := insertEntry s.entries op.newEntry
          let ended := { s with
            entries := entries
            threads := s.threads.set k (.store op .ended) }
          match previous with
          | none => some ended
          | some i => some (ended.spawn (.cancel i .waiting))
      | _ => none
  | .record side id limit =>
      -- the entry it replaces is not cancelled
      let (entries, _) := insertEntry s.entries (recordEntry side id limit)
      some ({ s with entries := entries }.spawn (.worker s.entries.length .head))
  | .recancel i =>
      match s.entries[i]? with
      | some e => if e.cancelled && e.alive then some (s.spawn (.cancel i .waiting)) else none
      | none => none
  | .step k answer =>
      match s.threads[k]? with
      | some t =>
        match t.entry? with
        | some i =>
          match s.entries[i]? with
          | some e => (t.stepOn k s.used e answer).map fun l => { s with
              used := l.used
              entries := s.entries.set i l.entry
              threads := s.threads.set k l.pc
              ops := l.ops ++ s.ops }
          | none => none
        | none => none
      | none => none
  | .tapDrop i =>
      match s.entries[i]? with
      | some e => if e.lock ≠ none then none
          else some { s with entries := s.entries.set i (e.finish (.partially .interrupted)) }
      | none => none
  | .startLayout i =>
      match s.entries[i]? with
      | some e =>
          if e.alive && e.result == .complete && e.json != .building && e.json != .ready then
            let building := { e with json := .building, token := false }
            some ({ s with entries := s.entries.set i building }.spawn
              (.layout i (.writing 0 false)))
          else none
      | none => none
  | .cancelLayout i =>
      match s.entries[i]? with
      | some e => some { s with entries := s.entries.set i { e with token := true } }
      | none => none
  | .remove i =>
      match s.entries[i]? with
      | some e =>
          let taken := { e with inStore := false }
          if e.inStore then
            some ({ s with entries := s.entries.set i taken }.spawn (.cancel i .waiting))
          else none
      | none => none
  | .drop i =>
      match s.entries[i]? with
      | some e =>
          if !e.inStore && e.alive && s.threads.all (fun t => t.entry? != some i) then
            some { s with
              used := wrappingSub s.used e.reserved
              entries := s.entries.set i { e with alive := false, reserved := 0 }
              ops := .sub s.used e.reserved :: s.ops }
          else none
      | none => none

/-- Two empty stores. -/
def start : State where
  used := 0
  entries := []
  threads := []
  lost := 0
  ops := []

/-- The shared pair of stores and all that works on it. -/
def machine : Machine State Event where
  start := start
  step := step

/-! ## What a step can do -/

/-- A change of an entry that its threads and the accounts do not see. -/
structure Entry.Same (e e' : Entry) : Prop where
  reserved : e'.reserved = e.reserved
  alive : e'.alive = e.alive
  cancelled : e'.cancelled = e.cancelled
  lock : e'.lock = e.lock
  written : e'.written = e.written
  total : e'.total = e.total
  kept : e'.kept ≤ e.kept
  limit : e'.limit = e.limit
  inStore : e'.inStore = true → e.inStore = true

theorem Entry.same_finish (e : Entry) (state : RecordState) : e.Same (e.finish state) :=
  ⟨rfl, rfl, rfl, rfl, rfl, rfl, Nat.le_refl _, rfl, fun h => h⟩

/-- A thread at its start on an entry. -/
def Thread.fresh : Thread → Bool
  | .worker _ .head => true
  | .layout _ (.writing 0 false) => true
  | .cancel _ .waiting => true
  | _ => false

/-- What a step of a store operation moves between its thread and the accounts. -/
inductive StoreMove (s : State) (op : StoreOp) : StorePc → StorePc → Nat → Nat → List Op → Prop
  /-- A step that moves nothing. -/
  | quiet {pc pc'} : (pc = .queued ∧ pc' = .ended) ∨ (pc = .reserved ∧ pc' = .releasing) ∨
      (pc = .reserved ∧ pc' = .stored ∧ op.awaited = true) →
      StoreMove s op pc pc' s.used s.lost s.ops
  | reserve {next} : checkedReserve s.used op.length op.limit = some next →
      StoreMove s op .queued .reserved next s.lost (.reserve next op.limit :: s.ops)
  | lose : op.awaited = false →
      StoreMove s op .reserved .ended s.used (s.lost + op.length) s.ops
  | release : StoreMove s op .releasing .ended (wrappingSub s.used op.length) s.lost
      (.sub s.used op.length :: s.ops)

theorem closureStep_spec {s s' : State} {k : Nat} {op : StoreOp} {pc : StorePc} {ok : Bool}
    (h : closureStep s k op pc ok = some s') :
    ∃ pc' used lost ops, StoreMove s op pc pc' used lost ops ∧
      s' = { s with used := used, threads := s.threads.set k (.store op pc'), lost := lost,
                    ops := ops } ∧ (lost ≠ s.lost → ok = true) := by
  cases pc with
  | queued =>
      cases ok with
      | false =>
          cases h
          exact ⟨_, _, _, _, .quiet (.inl ⟨rfl, rfl⟩), rfl, fun h => absurd rfl h⟩
      | true =>
          simp only [closureStep] at h
          split at h
          · cases h
            exact ⟨_, _, _, _, .quiet (.inl ⟨rfl, rfl⟩), rfl, fun h => absurd rfl h⟩
          · cases h
            exact ⟨_, _, _, _, .reserve ‹_›, rfl, fun h => absurd rfl h⟩
  | reserved =>
      cases ok with
      | false =>
          cases h
          exact ⟨_, _, _, _, .quiet (.inr (.inl ⟨rfl, rfl⟩)), rfl, fun h => absurd rfl h⟩
      | true =>
          simp only [closureStep] at h
          split at h
          · cases h
            exact ⟨_, _, _, _, .quiet (.inr (.inr ⟨rfl, rfl, ‹_›⟩)), rfl, fun h => absurd rfl h⟩
          · rename_i hdropped
            cases h
            exact ⟨_, _, _, _, .lose (by simpa using hdropped), rfl, fun _ => rfl⟩
  | releasing =>
      cases h
      exact ⟨_, _, _, _, .release, rfl, fun h => absurd rfl h⟩
  | stored => cases h
  | ended => cases h

/-- **All that a step can do.** -/
inductive StepCases (s : State) : Event → State → Prop
  | call (op : StoreOp) :
      StepCases s (.call op) (s.spawn (.store { op with awaited := true } .queued))
  | closure {k ok op pc pc' used lost ops} : s.threads[k]? = some (.store op pc) →
      StoreMove s op pc pc' used lost ops → (lost ≠ s.lost → ok = true) →
      StepCases s (.closure k ok) { s with
        used := used, threads := s.threads.set k (.store op pc'), lost := lost, ops := ops }
  | dropFuture {k op pc} : s.threads[k]? = some (.store op pc) →
      StepCases s (.dropFuture k) (dropStep s k op pc)
  | insert {k op} : s.threads[k]? = some (.store op .stored) →
      StepCases s (.insert k) { s with
        entries := (insertEntry s.entries op.newEntry).1
        threads := s.threads.set k (.store op .ended) ++
          ((insertEntry s.entries op.newEntry).2.map fun i => .cancel i .waiting).toList }
  | record (side id limit) :
      StepCases s (.record side id limit) { s with
        entries := (insertEntry s.entries (recordEntry side id limit)).1
        threads := s.threads ++ [.worker s.entries.length .head] }
  | act {k answer t i e l} : s.threads[k]? = some t → t.entry? = some i →
      s.entries[i]? = some e → t.stepOn k s.used e answer = some l →
      StepCases s (.step k answer) { s with
        used := l.used
        entries := s.entries.set i l.entry
        threads := s.threads.set k l.pc
        ops := l.ops ++ s.ops }
  /-- The other events touch one entry and may start a thread on it. -/
  | touch {event i e e'} (t? : Option Thread) : s.entries[i]? = some e → e.Same e' →
      (∀ t ∈ t?, t.fresh = true ∧ t.entry? = some i ∧ (e.alive = true ∨ e.inStore = true)) →
      (e.inStore = true → e'.inStore = true ∨ t? = some (.cancel i .waiting)) →
      StepCases s event { s with
        entries := s.entries.set i e', threads := s.threads ++ Option.toList t? }
  | drop {i e} : s.entries[i]? = some e → e.inStore = false →
      (∀ t ∈ s.threads, t.entry? ≠ some i) →
      StepCases s (.drop i) { s with
        used := wrappingSub s.used e.reserved
        entries := s.entries.set i { e with alive := false, reserved := 0 }
        ops := .sub s.used e.reserved :: s.ops }

theorem step_cases {s s' : State} {event : Event} (h : step s event = some s') :
    StepCases s event s' := by
  cases event with
  | call op => cases h; exact .call op
  | closure k ok =>
      simp only [step] at h
      split at h
      · obtain ⟨pc', used, lost, ops, hmove, rfl, hok⟩ := closureStep_spec h
        exact .closure ‹_› hmove hok
      · cases h
  | dropFuture k =>
      simp only [step] at h
      split at h
      · cases h; exact .dropFuture ‹_›
      · cases h
  | insert k =>
      simp only [step] at h
      split at h
      · rename_i op hk
        have hcase := StepCases.insert hk
        split at h <;> rename_i hprevious <;> cases h <;> rw [hprevious] at hcase
        · simpa using hcase
        · exact hcase
      · cases h
  | record side id limit => cases h; exact .record side id limit
  | step k answer =>
      simp only [step] at h
      split at h <;> try cases h
      split at h <;> try cases h
      split at h <;> try cases h
      obtain ⟨l, hl, rfl⟩ := Option.map_eq_some_iff.mp h
      exact .act ‹_› ‹_› ‹_› hl
  | recancel i =>
      simp only [step] at h
      split at h
      · rename_i e he
        split at h
        · rename_i hcond
          cases h
          have hset : s.entries.set i e = s.entries := by
            obtain ⟨hlt, hget⟩ := List.getElem?_eq_some_iff.mp he
            rw [← hget, List.set_getElem_self]
          have hsame : e.Same e := ⟨rfl, rfl, rfl, rfl, rfl, rfl, Nat.le_refl _, rfl, id⟩
          have hcase : StepCases s (.recancel i) _ := .touch (some (.cancel i .waiting))
            he hsame (by simp_all [Thread.fresh, Thread.entry?]) .inl
          rw [hset] at hcase
          exact hcase
        · cases h
      · cases h
  | tapDrop i =>
      simp only [step] at h
      split at h
      · rename_i e he
        split at h
        · cases h
        · cases h
          have hcase : StepCases s (.tapDrop i) _ := .touch none he
            (e.same_finish (.partially .interrupted)) (by simp)
            (fun hin => .inl hin)
          simpa using hcase
      · cases h
  | startLayout i =>
      simp only [step] at h
      split at h
      · rename_i e he
        split at h
        · rename_i hcond
          cases h
          exact .touch (some (.layout i (.writing 0 false))) he
            (by constructor <;> simp [Entry.kept]) (by simp_all [Thread.fresh, Thread.entry?]) .inl
        · cases h
      · cases h
  | cancelLayout i =>
      simp only [step] at h
      split at h
      · rename_i e he
        cases h
        have hsame : e.Same { e with token := true } := by constructor <;> simp [Entry.kept]
        have hcase : StepCases s (.cancelLayout i) _ := .touch none he hsame (by simp) .inl
        simpa using hcase
      · cases h
  | remove i =>
      simp only [step] at h
      split at h
      · rename_i e he
        split at h
        · rename_i hin
          cases h
          exact .touch (some (.cancel i .waiting)) he (by constructor <;> simp [Entry.kept])
            (by simp_all [Thread.fresh, Thread.entry?]) (fun _ => .inr rfl)
        · cases h
      · cases h
  | drop i =>
      simp only [step] at h
      split at h
      · rename_i e he
        split at h
        · rename_i hcond
          cases h
          simp only [Bool.and_eq_true, List.all_eq_true, bne_iff_ne, Bool.not_eq_true'] at hcond
          exact .drop he hcond.1.1 hcond.2
        · cases h
      · cases h

end SippinSoda.Budget
