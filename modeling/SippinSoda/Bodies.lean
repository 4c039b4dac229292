import SippinSoda.Workers
import SippinSoda.JsonLayout
import Mathlib.Logic.Function.Basic

/-!
# Recorded bodies (`BodyStore` in `proxy/bodies.rs`, `json_view` in `proxy/bodies/inspect.rs`)

Over the accounts of the two stores, what is in their files: the recorded body, which its worker
appends to, and the JSON layout. Beside the threads of the budget run the calls that read a body
(`page`, `info`, `export`), the calls of `json_view`, and whoever else holds a permit of `analysis`.

* **Files**, **Buffers** — the bytes of an entry, and those a thread works with;
* **Reader** — a read of a body, one load and one read of the file after the other;
* **step** — a step of the budget with what it does to the bytes, or a step that moves bytes only.
-/

namespace SippinSoda.Bodies

open Budget Ledger

/-! ## State -/

/-- What is in the files of an `Entry`. -/
structure Files where
  /-- The bytes in the recorded body's file, for those who have it open. -/
  recorded : List UInt8 := []
  /-- Is `Entry::file` there? -/
  file : Bool := false
  /-- `JsonView::file`. -/
  view : Option (List UInt8) := none
  deriving DecidableEq, Repr

/-- The bytes a thread works with. -/
structure Buffers where
  /-- What a store operation stores, a worker has read and not written yet, or a `BudgetWriter`
  is asked to write. -/
  chunk : List UInt8 := []
  /-- What is in the file a layout job writes. -/
  output : List UInt8 := []
  /-- How many of the two files `Entry::cancel` has taken. -/
  taken : Nat := 0
  deriving DecidableEq, Repr

/-- A call that reads a recorded body. -/
inductive Query where
  | page (offset length : Nat)
  | info
  | export
  deriving DecidableEq, Repr

/-- `BodyPage`, or `BodyInfo`, which has no bytes. -/
structure BodyPage where
  total : Nat
  bytes : List UInt8
  state : RecordState
  deriving DecidableEq, Repr

inductive Outcome where
  | page (page : BodyPage)
  | info (total : Nat) (state : RecordState)
  | exported (bytes : List UInt8)
  | refused (message : String)
  deriving DecidableEq, Repr

inductive ReaderPc where
  | start
  /-- The result has been read. -/
  | loaded (state : RecordState)
  /-- The total has been read, and reaches the offset. -/
  | sized (state : RecordState) (total : Nat)
  /-- The file is open, and some bytes have been read. -/
  | reading (state : RecordState) (total : Nat) (bytes : List UInt8)
  | copying (bytes : List UInt8)
  | returned (outcome : Outcome)
  deriving DecidableEq, Repr

/-- A call that has looked its entry up. -/
structure Reader where
  entry : Nat
  query : Query
  pc : ReaderPc
  deriving DecidableEq, Repr

structure State where
  budget : Budget.State
  files : Nat → Files
  buffers : Nat → Buffers
  readers : List Reader
  /-- The free permits of `analysis`. -/
  available : Nat
  /-- The layout jobs whose closures hold a permit. -/
  jobs : List Nat
  /-- The searches that hold one. -/
  searches : Nat

/-- Two empty stores. -/
def start : State where
  budget := Budget.start
  files _ := {}
  buffers _ := {}
  readers := []
  available := 2
  jobs := []
  searches := 0

/-! ## Steps of the threads -/

/-- What a moving thread meets, with the bytes. -/
inductive Input where
  | go
  | bytes (bytes : List UInt8)
  | ok
  | failure (n : Nat)
  | aborted
  deriving DecidableEq, Repr

def Input.answer : Input → Budget.Answer
  | .go => .go
  | .bytes chunk => .bytes chunk.length
  | .ok => .ok
  | .failure n => .failure n
  | .aborted => .aborted

/-- Which steps the bytes allow. A layout job succeeds by an event of its own. -/
def allows (b : Buffers) : Thread → Input → Bool
  | .worker _ (.writing _), .ok => b.chunk.isEmpty
  | .worker _ (.writing n), .failure m => m + b.chunk.length == n
  | .layout _ (.writing _ false), .ok => false
  | .cancel _ .swapping, .go => b.taken == 2
  | _, _ => true

/-- What a step makes of the bytes its thread works with. -/
def Buffers.after (b : Buffers) : Thread → Input → Buffers
  | .worker _ .reading, .bytes bytes => { b with chunk := bytes }
  | .worker _ (.writing _), .failure _ => { b with chunk := [] }
  | .layout _ (.writing ..), .bytes bytes => { b with chunk := bytes }
  | .layout _ (.adding ..), .ok => { b with output := b.output ++ b.chunk }
  | _, _ => b

/-- What it makes of the files of its entry. -/
def Files.after (f : Files) (b : Buffers) : Thread → Input → Files
  | .layout _ (.reporting (some _)), .go => { f with view := some b.output }
  | _, _ => f

/-- A worker at these steps may have a write to the file on its way, also after an abort. -/
def appends : WorkerPc → Bool
  | .writing _ => true
  | .ended => true
  | _ => false

/-- A budget state the system comes to; a new thread starts without bytes. -/
def State.moved (s : State) (b : Budget.State) : State :=
  { s with
    budget := b
    buffers := fun k => if k < s.budget.threads.length then s.buffers k else {} }

/-- The same when a new entry comes with its file. -/
def State.enter (s : State) (b : Budget.State) (recorded : List UInt8) : State :=
  { s.moved b with
    files := Function.update s.files s.budget.entries.length
      { recorded := recorded, file := true } }

/-- The budget moves, and thread `k` and entry `i` come to have other bytes. -/
def State.put (s : State) (budget : Budget.State) (k i : Nat) (b : Buffers) (f : Files) : State :=
  { s with
    budget := budget
    buffers := Function.update s.buffers k b
    files := Function.update s.files i f }

section Put

variable {s : State} {budget : Budget.State} {k i : Nat} {b : Buffers} {f : Files}

@[simp] theorem State.put_budget : (s.put budget k i b f).budget = budget := rfl

@[simp] theorem State.put_readers : (s.put budget k i b f).readers = s.readers := rfl

@[simp] theorem State.put_buffers_self : (s.put budget k i b f).buffers k = b :=
  Function.update_self ..

theorem State.put_buffers_of_ne {j : Nat} (h : j ≠ k) :
    (s.put budget k i b f).buffers j = s.buffers j := Function.update_of_ne h ..

@[simp] theorem State.put_files_self : (s.put budget k i b f).files i = f :=
  Function.update_self ..

theorem State.put_files_of_ne {j : Nat} (h : j ≠ i) :
    (s.put budget k i b f).files j = s.files j := Function.update_of_ne h ..

end Put

/-! ## Calls -/

/-- `json_view` after it has looked up entry `i`, which its reference keeps alive. That the result
is "complete" never changes, so reading it and locking the view are one step. -/
def State.jsonView (s : State) (i : Nat) (start cancel : Bool) :
    Option (Except String JsonState × State) :=
  match s.budget.entries[i]? with
  | none => none
  | some e =>
    if !e.alive then none
    else if e.result ≠ .complete then
      some (.error "JSON layout requires a complete recorded body.", s)
    else if cancel then
      (Budget.step s.budget (.cancelLayout i)).map fun b => (.ok e.json, s.moved b)
    else if !start then some (.ok e.json, s)
    else if e.json = .building ∨ e.json = .ready then some (.ok e.json, s)
    else if s.available = 0 then some (.error "Body analysis is busy. Try again.", s)
    else (Budget.step s.budget (.startLayout i)).map fun b => (.ok .building,
      { s.moved b with
        available := s.available - 1
        jobs := s.jobs ++ [s.budget.threads.length] })

/-- What a call that reads a body starts with. -/
def State.query (s : State) (side : Side) (id : Nat) (query : Query) : Except String Reader :=
  let look : Except String Reader :=
    match find s.budget.entries side id with
    | none => .error "Body not recorded, cleared or evicted."
    | some i => .ok ⟨i, query, .start⟩
  match query with
  | .page _ length =>
      if length = 0 ∨ length > pageSize then
        .error "Read size must be between 1 and 65536 bytes."
      else look
  | _ => look

/-- What a reader meets: nothing to decide, the length of what a read of the file returns, or an
error. -/
inductive ReadAnswer where
  | go
  | bytes (n : Nat)
  | failed (message : String)
  deriving DecidableEq, Repr

/-- A read of the file from `position`, of at most `limit` bytes: what it returns, which is
nothing at the end of the file only. -/
def Files.read (f : Files) (position limit n : Nat) : Option (List UInt8) :=
  if n ≤ limit ∧ position + n ≤ f.recorded.length ∧ (n = 0 → f.recorded.length ≤ position) then
    some ((f.recorded.drop position).take n)
  else none

/-- A step of a reader on its entry. -/
def readerStep (e : Entry) (f : Files) : Query → ReaderPc → ReadAnswer → Option ReaderPc
  | .export, .start, .go =>
      if e.lock ≠ none then none
      else if e.result ≠ .complete then some (.returned (.refused (e.result.error.getD
        "Only a complete body can be exported; wait for recording to finish.")))
      else some (.loaded e.result)
  | _, .start, .go => if e.lock ≠ none then none else some (.loaded e.result)
  | .info, .loaded state, .go => some (.returned (.info e.total state))
  | .page offset _, .loaded state, .go =>
      if offset > e.total then some (.returned (.refused "Offset exceeds the recorded body."))
      else some (.sized state e.total)
  | .page _ _, .sized state total, .go =>
      if f.file then some (.reading state total [])
      else some (.returned (.refused "Body cleared or evicted."))
  | .page _ _, .sized _ _, .failed message => some (.returned (.refused message))
  | .page offset length, .reading state total bytes, .bytes n =>
      let wanted := min length (total - offset)
      if bytes.length = wanted then none
      else match f.read (offset + bytes.length) (wanted - bytes.length) n with
        | none => none
        | some [] => some (.returned (.refused "Cannot read recorded body."))
        | some more => some (.reading state total (bytes ++ more))
  | .page offset length, .reading state total bytes, .go =>
      if bytes.length = min length (total - offset) then
        some (.returned (.page ⟨total, bytes, state⟩))
      else none
  | .page _ _, .reading _ _ _, .failed message => some (.returned (.refused message))
  | .export, .loaded _, .go =>
      if f.file then some (.copying [])
      else some (.returned (.refused "Body cleared or evicted."))
  | .export, .loaded _, .failed message => some (.returned (.refused message))
  | .export, .copying bytes, .bytes n =>
      match f.read bytes.length n n with
      | none => none
      | some [] => some (.returned (.exported bytes))
      | some more => some (.copying (bytes ++ more))
  | .export, .copying _, .failed message => some (.returned (.refused message))
  | _, _, _ => none

/-! ## The machine -/

inductive Event where
  /-- A step of the budget that moves no bytes. -/
  | plain (e : Budget.Event)
  | call (op : StoreOp) (bytes : List UInt8)
  | insert (k : Nat)
  | record (side : Side) (id limit : Nat)
  /-- A thread steps on its entry. -/
  | step (k : Nat) (a : Input)
  /-- The file takes in `n` bytes of what worker `k` writes. -/
  | append (k n : Nat)
  /-- `format_json` returns a layout to job `k`, having met what `env` tells. -/
  | format (k : Nat) (env : LayoutEnv)
  /-- `Entry::cancel` takes the recorded body's file, then the layout's. -/
  | take (k : Nat)
  | jsonView (i : Nat) (start cancel : Bool)
  /-- The closure of a layout job is gone, and its permit with it. -/
  | jobEnd (k : Nat)
  | search
  | searchEnd
  | query (side : Side) (id : Nat) (query : Query)
  | read (j : Nat) (a : ReadAnswer)
  /-- `Entry::drop`, after the last reference. -/
  | drop (i : Nat)

/-- The events of the budget that touch no bytes. -/
def silent : Budget.Event → Bool
  | .closure .. | .dropFuture _ | .recancel _ | .tapDrop _ | .remove _ => true
  | _ => false

/-- Is the reader done with entry `i`? -/
def Reader.leaves (r : Reader) (i : Nat) : Bool :=
  match r.pc with
  | .returned _ => true
  | _ => r.entry != i

/-- The reads of a pass return these bytes in some chunks, and then the end of the file. -/
instance (pass : Except String (List Fetch)) (bytes : List UInt8) : Decidable (Splits pass bytes) :=
  match pass with
  | .error _ => .isFalse fun ⟨_, h, _⟩ => by cases h
  | .ok fetches =>
    decidable_of_iff ((fetches = (fetches.map Fetch.data).map .bytes ∧
        ∀ chunk ∈ fetches.map Fetch.data, chunk ≠ []) ∧
        (fetches.map Fetch.data).flatten = bytes) (by
      constructor
      · rintro ⟨⟨hfetches, hchunks⟩, hbytes⟩
        exact ⟨_, congrArg _ hfetches, hchunks, hbytes⟩
      · rintro ⟨chunks, hfetches, hchunks, hbytes⟩
        cases hfetches
        have hdata : (chunks.map Fetch.bytes).map Fetch.data = chunks := by
          rw [List.map_map]
          exact List.map_id _
        rw [hdata]
        exact ⟨⟨rfl, hchunks⟩, hbytes⟩)

instance (env : LayoutEnv) (bytes : List UInt8) : Decidable (env.Delivers bytes) :=
  decidable_of_iff (Splits env.first bytes ∧ Splits env.second bytes ∧ env.tempfile = .ok ())
    ⟨fun h => ⟨h.1, h.2.1, h.2.2⟩, fun h => ⟨h.first, h.second, h.tempfile⟩⟩

/-- One step of the system. -/
def step (serde : IgnoredAny) (s : State) : Event → Option State
  | .plain e => if silent e then (Budget.step s.budget e).map s.moved else none
  | .call op bytes =>
      if bytes.length = op.length then
        (Budget.step s.budget (.call op)).map fun b => { s.moved b with
          buffers := Function.update (s.moved b).buffers s.budget.threads.length
            { chunk := bytes } }
      else none
  | .insert k =>
      (Budget.step s.budget (.insert k)).map fun b => s.enter b (s.buffers k).chunk
  | .record side id limit =>
      (Budget.step s.budget (.record side id limit)).map fun b => s.enter b []
  | .step k a =>
      match s.budget.threads[k]? with
      | none => none
      | some t =>
        match t.entry? with
        | none => none
        | some i =>
          if allows (s.buffers k) t a then
            (Budget.step s.budget (.step k a.answer)).map fun b =>
              s.put b k i ((s.buffers k).after t a) ((s.files i).after (s.buffers k) t a)
          else none
  | .append k n =>
      match s.budget.threads[k]? with
      | some (.worker i pc) =>
          let b := s.buffers k
          let f := s.files i
          if appends pc ∧ n ≤ b.chunk.length then
            some (s.put s.budget k i { b with chunk := b.chunk.drop n }
              { f with recorded := f.recorded ++ b.chunk.take n })
          else none
      | _ => none
  | .format k env =>
      match s.budget.threads[k]? with
      | some (.layout i (.writing r false)) =>
          if env.Delivers (s.files i).recorded ∧
              formatJson serde env = .ok ((s.buffers k).output, r) then
            (Budget.step s.budget (.step k .ok)).map fun b => { s with budget := b }
          else none
      | _ => none
  | .take k =>
      match s.budget.threads[k]? with
      | some (.cancel i .swapping) =>
          let b := s.buffers k
          let f := s.files i
          match b.taken with
          | 0 => some (s.put s.budget k i { b with taken := 1 } { f with file := false })
          | 1 => some (s.put s.budget k i { b with taken := 2 } { f with view := none })
          | _ => none
      | _ => none
  | .jsonView i start cancel => (s.jsonView i start cancel).map Prod.snd
  | .jobEnd k =>
      match s.budget.threads[k]? with
      | some (.layout _ .ended) =>
          if k ∈ s.jobs then
            some { s with available := s.available + 1, jobs := s.jobs.erase k }
          else none
      | _ => none
  | .search =>
      if s.available = 0 then none
      else some { s with available := s.available - 1, searches := s.searches + 1 }
  | .searchEnd =>
      if s.searches = 0 then none
      else some { s with available := s.available + 1, searches := s.searches - 1 }
  | .query side id query =>
      match s.query side id query with
      | .error _ => some s
      | .ok r => some { s with readers := s.readers ++ [r] }
  | .read j a =>
      match s.readers[j]? with
      | none => none
      | some r =>
        match s.budget.entries[r.entry]? with
        | none => none
        | some e => (readerStep e (s.files r.entry) r.query r.pc a).map fun pc =>
            { s with readers := s.readers.set j { r with pc := pc } }
  | .drop i =>
      if s.readers.all (·.leaves i) then
        (Budget.step s.budget (.drop i)).map fun b => { s.moved b with
          files := Function.update s.files i { s.files i with file := false, view := none } }
      else none

/-- The stores with their files, and all that works on them. -/
def bodies (serde : IgnoredAny) : Machine State Event where
  start := start
  step := step serde

/-! ## The accounts run as before -/

/-- The thread that an event of the budget moves on its entry. -/
def mover? : Budget.Event → Option Nat
  | .step k _ => some k
  | _ => none

/-- The thread an event moves on its entry. -/
def Event.mover? : Event → Option Nat
  | .step k _ | .format k _ => some k
  | _ => none

/-- The events that concern permits alone. -/
def Event.analyses : Event → Bool
  | .jobEnd _ | .search | .searchEnd => true
  | _ => false

/-- What a call of `json_view` does. -/
inductive Viewed (s : State) (i : Nat) (e : Entry) : Except String JsonState → State → Prop
  | refused (message : String) : Viewed s i e (.error message) s
  | asked : Viewed s i e (.ok e.json) s
  | cancelled {b} : Budget.step s.budget (.cancelLayout i) = some b →
      Viewed s i e (.ok e.json) (s.moved b)
  | started {b} : e.result = .complete → e.json ≠ .building → e.json ≠ .ready →
      0 < s.available → Budget.step s.budget (.startLayout i) = some b →
      Viewed s i e (.ok .building) { s.moved b with
        available := s.available - 1
        jobs := s.jobs ++ [s.budget.threads.length] }

theorem jsonView_cases {s s' : State} {i : Nat} {start cancel : Bool}
    {result : Except String JsonState} (h : s.jsonView i start cancel = some (result, s')) :
    ∃ e, s.budget.entries[i]? = some e ∧ e.alive = true ∧ Viewed s i e result s' := by
  unfold State.jsonView at h
  split at h
  next => cases h
  next e he =>
    split at h
    next => cases h
    next halive =>
      refine ⟨e, he, by simpa using halive, ?_⟩
      split at h
      next => cases h; exact .refused _
      next hcomplete =>
        split at h
        next =>
          obtain ⟨b, hb, heq⟩ := Option.map_eq_some_iff.mp h
          cases heq
          exact .cancelled hb
        next =>
          split at h
          next => cases h; exact .asked
          next =>
            split at h
            next => cases h; exact .asked
            next hidle =>
              split at h
              next => cases h; exact .refused _
              next havailable =>
                obtain ⟨b, hb, heq⟩ := Option.map_eq_some_iff.mp h
                cases heq
                obtain ⟨hbuilding, hready⟩ := not_or.mp hidle
                exact .started (Decidable.not_not.mp hcomplete) hbuilding hready
                  (Nat.pos_of_ne_zero havailable) hb

/-- **All that a step can do.** -/
inductive Steps (serde : IgnoredAny) (s : State) : Event → State → Prop
  | plain {e b} : silent e = true → Budget.step s.budget e = some b →
      Steps serde s (.plain e) (s.moved b)
  | call {op bytes b} : bytes.length = op.length → Budget.step s.budget (.call op) = some b →
      Steps serde s (.call op bytes) { s.moved b with
        buffers := Function.update (s.moved b).buffers s.budget.threads.length
          { chunk := bytes } }
  | insert {k b} : Budget.step s.budget (.insert k) = some b →
      Steps serde s (.insert k) (s.enter b (s.buffers k).chunk)
  | record {side id limit b} : Budget.step s.budget (.record side id limit) = some b →
      Steps serde s (.record side id limit) (s.enter b [])
  | step {k a t i b} : s.budget.threads[k]? = some t → t.entry? = some i →
      allows (s.buffers k) t a = true → Budget.step s.budget (.step k a.answer) = some b →
      Steps serde s (.step k a)
        (s.put b k i ((s.buffers k).after t a) ((s.files i).after (s.buffers k) t a))
  | append {k n i pc} : s.budget.threads[k]? = some (.worker i pc) → appends pc = true →
      n ≤ (s.buffers k).chunk.length → Steps serde s (.append k n)
        (s.put s.budget k i { s.buffers k with chunk := (s.buffers k).chunk.drop n }
          { s.files i with recorded := (s.files i).recorded ++ (s.buffers k).chunk.take n })
  | format {k env i r b} : s.budget.threads[k]? = some (.layout i (.writing r false)) →
      env.Delivers (s.files i).recorded →
      formatJson serde env = .ok ((s.buffers k).output, r) →
      Budget.step s.budget (.step k .ok) = some b →
      Steps serde s (.format k env) { s with budget := b }
  | takeFile {k i} : s.budget.threads[k]? = some (.cancel i .swapping) →
      (s.buffers k).taken = 0 → Steps serde s (.take k)
        (s.put s.budget k i { s.buffers k with taken := 1 } { s.files i with file := false })
  | takeView {k i} : s.budget.threads[k]? = some (.cancel i .swapping) →
      (s.buffers k).taken = 1 → Steps serde s (.take k)
        (s.put s.budget k i { s.buffers k with taken := 2 } { s.files i with view := none })
  | view {i start cancel e result s'} : s.budget.entries[i]? = some e → e.alive = true →
      Viewed s i e result s' → Steps serde s (.jsonView i start cancel) s'
  /-- Permits are given back or taken. -/
  | permits {e : Event} {available : Nat} {jobs : List Nat} {searches : Nat} :
      e.analyses = true →
      available + jobs.length + searches = s.available + s.jobs.length + s.searches →
      Steps serde s e { s with available := available, jobs := jobs, searches := searches }
  | refuse {side id query} : Steps serde s (.query side id query) s
  | query {side id query r} : s.query side id query = .ok r →
      Steps serde s (.query side id query) { s with readers := s.readers ++ [r] }
  | read {j a r e pc} : s.readers[j]? = some r → s.budget.entries[r.entry]? = some e →
      readerStep e (s.files r.entry) r.query r.pc a = some pc →
      Steps serde s (.read j a) { s with readers := s.readers.set j { r with pc := pc } }
  | drop {i b} : (∀ r ∈ s.readers, r.leaves i = true) → Budget.step s.budget (.drop i) = some b →
      Steps serde s (.drop i) { s.moved b with
        files := Function.update s.files i { s.files i with file := false, view := none } }

theorem step_steps {serde : IgnoredAny} {s s' : State} {e : Event}
    (h : step serde s e = some s') : Steps serde s e s' := by
  unfold step at h
  cases e with
  | plain e =>
      simp only at h
      split at h
      next hsilent =>
        obtain ⟨b, hb, rfl⟩ := Option.map_eq_some_iff.mp h
        exact .plain hsilent hb
      next => cases h
  | call op bytes =>
      simp only at h
      split at h
      next hlength =>
        obtain ⟨b, hb, rfl⟩ := Option.map_eq_some_iff.mp h
        exact .call hlength hb
      next => cases h
  | insert k =>
      obtain ⟨b, hb, rfl⟩ := Option.map_eq_some_iff.mp h
      exact .insert hb
  | record side id limit =>
      obtain ⟨b, hb, rfl⟩ := Option.map_eq_some_iff.mp h
      exact .record hb
  | step k a =>
      simp only at h
      split at h
      next => cases h
      next t ht =>
        split at h
        next => cases h
        next i hi =>
          split at h
          next hallows =>
            obtain ⟨b, hb, rfl⟩ := Option.map_eq_some_iff.mp h
            exact .step ht hi hallows hb
          next => cases h
  | append k n =>
      simp only at h
      split at h
      next i pc hk =>
        split at h
        next hcond => cases h; exact .append hk hcond.1 hcond.2
        next => cases h
      next => cases h
  | format k env =>
      simp only at h
      split at h
      next i r hk =>
        split at h
        next hcond =>
          obtain ⟨b, hb, rfl⟩ := Option.map_eq_some_iff.mp h
          exact .format hk hcond.1 hcond.2 hb
        next => cases h
      next => cases h
  | take k =>
      simp only at h
      split at h
      next i hk =>
        split at h
        next htaken => cases h; exact .takeFile hk htaken
        next htaken => cases h; exact .takeView hk htaken
        next => cases h
      next => cases h
  | jsonView i start cancel =>
      obtain ⟨⟨result, s''⟩, hview, rfl⟩ := Option.map_eq_some_iff.mp h
      obtain ⟨e, he, halive, hviewed⟩ := jsonView_cases hview
      exact .view he halive hviewed
  | jobEnd k =>
      simp only at h
      split at h
      next i hk =>
        split at h
        next hmem =>
          cases h
          refine .permits rfl ?_
          have hpos := List.length_pos_of_mem hmem
          rw [List.length_erase_of_mem hmem]
          omega
        next => cases h
      next => cases h
  | search =>
      simp only at h
      split at h
      next => cases h
      next => cases h; exact .permits rfl (by omega)
  | searchEnd =>
      simp only at h
      split at h
      next => cases h
      next => cases h; exact .permits rfl (by omega)
  | query side id query =>
      simp only at h
      split at h
      next => cases h; exact .refuse
      next r hr => cases h; exact .query hr
  | read j a =>
      simp only at h
      split at h
      next => cases h
      next r hr =>
        split at h
        next => cases h
        next e he =>
          obtain ⟨pc, hpc, rfl⟩ := Option.map_eq_some_iff.mp h
          exact .read hr he hpc
  | drop i =>
      simp only at h
      split at h
      next hleaves =>
        obtain ⟨b, hb, rfl⟩ := Option.map_eq_some_iff.mp h
        exact .drop (fun r hr => List.all_eq_true.mp hleaves r hr) hb
      next => cases h

/-- **A step of the system is a step of the budget, or leaves the budget alone.** -/
theorem Steps.budget {serde : IgnoredAny} {s s' : State} {e : Event} (h : Steps serde s e s') :
    s'.budget = s.budget ∨
      ∃ d, Budget.step s.budget d = some s'.budget ∧ mover? d = e.mover? := by
  cases h with
  | plain hsilent hb =>
      rename_i d b
      refine .inr ⟨d, hb, ?_⟩
      cases d <;> first | rfl | cases hsilent
  | call _ hb => exact .inr ⟨_, hb, rfl⟩
  | insert hb => exact .inr ⟨_, hb, rfl⟩
  | record hb => exact .inr ⟨_, hb, rfl⟩
  | step _ _ _ hb => exact .inr ⟨_, hb, rfl⟩
  | format _ _ _ hb => exact .inr ⟨_, hb, rfl⟩
  | drop _ hb => exact .inr ⟨_, hb, rfl⟩
  | view _ _ hviewed =>
      cases hviewed with
      | refused => exact .inl rfl
      | asked => exact .inl rfl
      | cancelled hb => exact .inr ⟨_, hb, rfl⟩
      | started _ _ _ _ hb => exact .inr ⟨_, hb, rfl⟩
  | _ => exact .inl rfl

theorem budget_of_reachable {serde : IgnoredAny} {s : State} (h : (bodies serde).Reachable s) :
    Budget.machine.Reachable s.budget := by
  refine h.project State.budget rfl fun hstep => ?_
  rcases (step_steps hstep).budget with hsame | ⟨d, hd, -⟩
  · exact .inl hsame
  · exact .inr ⟨d, hd⟩

/-! ## What is in the files is what is counted -/

/-- How far a worker is with the bytes it has read. -/
def Wrote (b : Buffers) (f : Files) (e : Entry) : WorkerPc → Prop
  | .reserving n | .locked n | .adding n =>
      b.chunk.length = n ∧ f.recorded.length = e.written
  | .writing n => b.chunk.length ≤ n ∧ f.recorded.length + b.chunk.length = e.written + n
  -- an aborted write may still go on
  | .ended => True
  | _ => b.chunk = [] ∧ f.recorded.length = e.written

/-- The file has the bytes that are counted, and no more when the recording is complete. -/
structure Matches (f : Files) (e : Entry) : Prop where
  le : e.written ≤ f.recorded.length
  complete : e.result = .complete → f.recorded.length = e.written

/-- A worker is as far as it says, and has nothing left of a complete recording. -/
structure Tracks (b : Buffers) (f : Files) (e : Entry) (pc : WorkerPc) : Prop where
  wrote : Wrote b f e pc
  complete : e.result = .complete → b.chunk = []

theorem Tracks.congr {b b' : Buffers} {f f' : Files} {e e' : Entry} {pc : WorkerPc}
    (h : Tracks b f e pc) (hchunk : b'.chunk = b.chunk) (hrecorded : f'.recorded = f.recorded)
    (hwritten : e'.written = e.written) (hcomplete : e'.result = .complete → e.result = .complete) :
    Tracks b' f' e' pc := by
  refine ⟨?_, fun hresult => hchunk.trans (h.complete (hcomplete hresult))⟩
  have hwrote := h.wrote
  unfold Wrote at hwrote ⊢
  rwa [hchunk, hrecorded, hwritten]

/-- The bytes a thread has are those it counts. -/
def Carries (s : State) (k : Nat) : Thread → Prop
  | .store op pc => pc ≠ .ended → (s.buffers k).chunk.length = op.length
  | .worker i pc => ∀ e, s.budget.entries[i]? = some e →
      Tracks (s.buffers k) (s.files i) e pc
  | _ => True

/-- **The bytes are those the budget counts.** -/
structure Written (s : State) : Prop where
  entry : ∀ (i : Nat) (e : Entry), s.budget.entries[i]? = some e → Matches (s.files i) e
  thread : ∀ (k : Nat) (t : Thread), s.budget.threads[k]? = some t → Carries s k t

theorem written_start : Written start where
  entry i e h := by simp [start, Budget.start] at h
  thread k t h := by simp [start, Budget.start] at h

/-- What keeps the bytes in step: an entry and its file stay, or fit anew, with their worker. -/
theorem Written.next {s s' : State} (hs : Written s)
    (hentries : ∀ (i : Nat) (e' : Entry), s'.budget.entries[i]? = some e' →
      (∃ e, s.budget.entries[i]? = some e ∧ e'.written = e.written ∧
        (e'.result = .complete → e.result = .complete) ∧
        (s'.files i).recorded = (s.files i).recorded) ∨
      Matches (s'.files i) e' ∧ ∀ (k : Nat) (pc : WorkerPc),
        s'.budget.threads[k]? = some (.worker i pc) → Tracks (s'.buffers k) (s'.files i) e' pc)
    (hthreads : ∀ (k : Nat) (t' : Thread), s'.budget.threads[k]? = some t' →
      (∃ t, s.budget.threads[k]? = some t ∧ Follows t t' ∧
        (s'.buffers k).chunk = (s.buffers k).chunk) ∨ Carries s' k t') : Written s' := by
  refine ⟨fun i e' he' => ?_, fun k t' ht' => ?_⟩
  · rcases hentries i e' he' with ⟨e, he, hwritten, hcomplete, hrecorded⟩ | ⟨hmatches, -⟩
    · have hold := hs.entry i e he
      exact ⟨by rw [hwritten, hrecorded]; exact hold.le,
        fun hresult => by rw [hwritten, hrecorded]; exact hold.complete (hcomplete hresult)⟩
    · exact hmatches
  · rcases hthreads k t' ht' with ⟨t, ht, hfollows, hchunk⟩ | hcarries
    · have hold := hs.thread k t ht
      cases hfollows with
      | store hlength hpc =>
          intro hpc'
          rw [hchunk, hlength]
          exact hold (hpc hpc')
      | refl =>
          cases t' with
          | store op pc =>
              intro hpc
              rw [hchunk]
              exact hold hpc
          | worker i pc =>
              intro e' he'
              rcases hentries i e' he' with ⟨e, he, hwritten, hcomplete, hrecorded⟩ | ⟨-, hnew⟩
              · exact (hold e he).congr hchunk hrecorded hwritten hcomplete
              · exact hnew k pc ht'
          | layout i pc => trivial
          | cancel i pc => trivial
    · exact hcarries

/-- A step of a worker keeps it in step with its file. -/
theorem Tracks.step {k used i : Nat} {b : Buffers} {f : Files} {e : Entry} {pc : WorkerPc}
    {a : Input} {l : Local WorkerPc} (h : workerStep k used e pc a.answer = some l)
    (hallows : allows b (.worker i pc) a = true) (hunfinished : e.result ≠ .complete)
    (hs : Tracks b f e pc) (hle : e.written ≤ f.recorded.length) :
    Matches f l.entry ∧ Tracks (b.after (.worker i pc) a) f l.entry l.pc := by
  have hwrote := hs.wrote
  -- a step that does not complete the recording
  have hstays {e' : Entry} {pc' : WorkerPc} {b' : Buffers} (hresult : e'.result ≠ .complete)
      (hle' : e'.written ≤ f.recorded.length) (hwrote' : Wrote b' f e' pc') :
      Matches f e' ∧ Tracks b' f e' pc' :=
    ⟨⟨hle', fun h => absurd h hresult⟩, hwrote', fun h => absurd h hresult⟩
  cases pc with
  | head =>
      cases a with
      | go =>
          cases h
          refine hstays hunfinished hle ?_
          by_cases hcancelled : e.cancelled = true
          · rw [if_pos hcancelled]
            trivial
          · rw [if_neg hcancelled]
            exact hwrote
      | failure m => cases h; exact hstays hunfinished hle hwrote
      | _ => cases h
  | reading =>
      cases a with
      | bytes chunk =>
          cases h
          refine hstays hunfinished hle ?_
          cases chunk with
          | nil => exact ⟨rfl, hwrote.2⟩
          | cons byte chunk => exact ⟨rfl, hwrote.2⟩
      | failure m => cases h; exact hstays hunfinished hle hwrote
      | aborted => cases h; exact hstays hunfinished hle trivial
      | _ => cases h
  | reserving n =>
      cases a with
      | go =>
          simp only [Input.answer, workerStep] at h
          split at h
          · cases h
          · split at h
            · cases h; exact hstays hunfinished hle trivial
            · cases h; exact hstays hunfinished hle hwrote
      | _ => cases h
  | locked n =>
      cases a with
      | go =>
          simp only [Input.answer, workerStep] at h
          split at h
          · cases h; exact hstays (fun h => by cases h) hle trivial
          · cases h; exact hstays hunfinished hle hwrote
      | _ => cases h
  | adding n =>
      cases a with
      | go =>
          simp only [Input.answer, workerStep, Option.some.injEq] at h
          subst h
          exact hstays hunfinished hle ⟨hwrote.1.le, by
            show f.recorded.length + b.chunk.length = e.written + n
            rw [hwrote.1, hwrote.2]⟩
      | _ => cases h
  | writing n =>
      cases a with
      | ok =>
          have hchunk : b.chunk = [] := List.isEmpty_iff.mp hallows
          have hlength : b.chunk.length = 0 := by rw [hchunk]; rfl
          obtain ⟨-, hwritten⟩ := hwrote
          cases h
          refine hstays hunfinished ?_ ⟨hchunk, ?_⟩
          · show e.written + n ≤ f.recorded.length
            omega
          · show f.recorded.length = e.written + n
            omega
      | failure m =>
          have hallows : m + b.chunk.length = n := beq_iff_eq.mp hallows
          obtain ⟨-, hwritten⟩ := hwrote
          simp only [Input.answer, workerStep] at h
          split at h
          · cases h
            refine hstays hunfinished ?_ ⟨rfl, ?_⟩
            · show e.written + m ≤ f.recorded.length
              omega
            · show f.recorded.length = e.written + m
              omega
          · cases h
      | aborted => cases h; exact hstays hunfinished hle trivial
      | _ => cases h
  | publishing n =>
      cases a with
      | go => cases h; exact hstays hunfinished hle hwrote
      | _ => cases h
  | finishing state =>
      cases a with
      | go =>
          simp only [Input.answer, workerStep] at h
          split at h
          · cases h
          · cases h
            exact ⟨⟨hle, fun _ => hwrote.2⟩, trivial, fun _ => hwrote.1⟩
      | _ => cases h
  | ended => cases a <;> cases h

/-- A worker that can take a step has not finished. -/
theorem unfinished_of_step {s : Budget.State} (hstaffed : Staffed s.entries s.threads) {k i : Nat}
    {pc : WorkerPc} {e : Entry} (hk : s.threads[k]? = some (.worker i pc)) (hpc : pc ≠ .ended)
    (he : s.entries[i]? = some e) : e.result ≠ .complete := by
  intro hresult
  obtain ⟨d, hd, hposted⟩ := hstaffed.posted _ (List.mem_of_getElem? hk) i (.inl rfl)
  obtain rfl : e = d := Option.some.inj (he.symm.trans hd)
  have hended := hposted.recorder i rfl hresult
  simp [Thread.entry?, hpc] at hended

/-- What a step of a layout job or of a cancelling thread leaves alone. -/
theorem stepOn_recording {k used : Nat} {e : Entry} {t : Thread} {a : Budget.Answer}
    {l : Local Thread} (h : t.stepOn k used e a = some l) (hrecorder : t.recorder? = none) :
    l.entry.written = e.written ∧ l.entry.total = e.total ∧ l.entry.result = e.result := by
  cases t with
  | store op pc => cases h
  | worker i pc => cases hrecorder
  | layout i pc =>
      obtain ⟨l', hl', rfl⟩ := Option.map_eq_some_iff.mp h
      rcases layoutStep_entry hl' with ⟨hentry, -, -⟩ | ⟨outcome, -, -, hentry⟩
      · show l'.entry.written = _ ∧ l'.entry.total = _ ∧ l'.entry.result = _
        rw [hentry]
        exact ⟨rfl, rfl, rfl⟩
      · show l'.entry.written = _ ∧ l'.entry.total = _ ∧ l'.entry.result = _
        rw [hentry]
        cases outcome <;> exact ⟨rfl, rfl, rfl⟩
  | cancel i pc =>
      cases a with
      | go =>
          obtain ⟨l', hl', rfl⟩ := Option.map_eq_some_iff.mp h
          show l'.entry.written = _ ∧ l'.entry.total = _ ∧ l'.entry.result = _
          rw [cancelStep_entry hl']
          exact ⟨rfl, rfl, rfl⟩
      | _ => cases h

theorem Files.after_recorded (f : Files) (b : Buffers) (t : Thread) (a : Input) :
    (f.after b t a).recorded = f.recorded := by
  unfold Files.after
  split <;> rfl

/-- Old threads keep their bytes when the budget moves. -/
theorem State.moved_buffers {s : State} (b : Budget.State) {k : Nat} {t : Thread}
    (hk : s.budget.threads[k]? = some t) : (s.moved b).buffers k = s.buffers k :=
  if_pos (List.getElem?_eq_some_iff.mp hk).1

/-- A new one has none. -/
theorem State.moved_buffers_new {s : State} (b : Budget.State) :
    (s.moved b).buffers s.budget.threads.length = {} := if_neg (Nat.lt_irrefl _)

/-- An entry that is there is not the one that comes. -/
theorem ne_length {α : Type} {l : List α} {i : Nat} {a : α} (h : l[i]? = some a) :
    i ≠ l.length := fun heq => by
  rw [heq, List.getElem?_eq_none (Nat.le_refl _)] at h
  cases h

theorem State.enter_files {s : State} {b : Budget.State} {recorded : List UInt8} {i : Nat}
    {e : Entry} (he : s.budget.entries[i]? = some e) : (s.enter b recorded).files i = s.files i :=
  Function.update_of_ne (ne_length he) ..

theorem State.enter_files_new {s : State} {b : Budget.State} {recorded : List UInt8} :
    (s.enter b recorded).files s.budget.entries.length =
      { recorded := recorded, file := true } := Function.update_self ..

theorem Written.plain {s : State} (hs : Written s) {d : Budget.Event} {b : Budget.State}
    (hsilent : silent d = true ∨ (∃ i, d = .startLayout i ∨ d = .cancelLayout i ∨ d = .drop i))
    (hb : Budget.step s.budget d = some b) : Written (s.moved b) := by
  have hmoves := step_moves hb
  refine hs.next (fun i e' he' => .inl ?_) fun k t' ht' => ?_
  · cases hmoves.entry he' with
    | still he hstill => exact ⟨_, he, hstill.written, hstill.complete.mp, rfl⟩
    | insert => rcases hsilent with h | ⟨i, h | h | h⟩ <;> cases h
    | record => rcases hsilent with h | ⟨i, h | h | h⟩ <;> cases h
    | act => rcases hsilent with h | ⟨i, h | h | h⟩ <;> cases h
  · cases hmoves.thread ht' with
    | follows ht hfollows =>
        exact .inl ⟨_, ht, hfollows, by rw [State.moved_buffers b ht]⟩
    | call => rcases hsilent with h | ⟨i, h | h | h⟩ <;> cases h
    | record => rcases hsilent with h | ⟨i, h | h | h⟩ <;> cases h
    | act => rcases hsilent with h | ⟨i, h | h | h⟩ <;> cases h
    | cancel => exact .inr trivial
    | layout => exact .inr trivial

/-- **A thread's step keeps the bytes in step.** -/
theorem Written.act {s : State} (hs : Written s) {k : Nat} {a : Input} {t : Thread} {i : Nat}
    {b : Budget.State} (hstaffed : Staffed s.budget.entries s.budget.threads)
    (ht : s.budget.threads[k]? = some t) (hi : t.entry? = some i)
    (hallows : allows (s.buffers k) t a = true)
    (hb : Budget.step s.budget (.step k a.answer) = some b) :
    Written (s.put b k i ((s.buffers k).after t a)
      ((s.files i).after (s.buffers k) t a)) := by
  obtain ⟨e, l, he, hl, rfl⟩ := Budget.act_of_step ht hi hb
  have hklt := (List.getElem?_eq_some_iff.mp ht).1
  have hrecorded (b : Budget.State) (j : Nat) : ((s.put b k i ((s.buffers k).after t a)
      ((s.files i).after (s.buffers k) t a)).files j).recorded = (s.files j).recorded := by
    by_cases hji : j = i
    · subst hji
      rw [State.put_files_self, Files.after_recorded]
    · rw [State.put_files_of_ne hji]
  -- a worker is the only one of its entry, and in step
  have hworker (pc : WorkerPc) (hworker : t = .worker i pc) :
      ∃ pc', l.pc = .worker i pc' ∧ Matches (s.files i) l.entry ∧
        Tracks ((s.buffers k).after t a) (s.files i) l.entry pc' := by
    subst hworker
    obtain ⟨l', hl', rfl⟩ := Option.map_eq_some_iff.mp hl
    have hunfinished := unfinished_of_step hstaffed ht (workerStep_spec hl').2.1 he
    obtain ⟨hmatches, htracks⟩ := (hs.thread k _ ht e he).step hl' hallows hunfinished
      (hs.entry i e he).le
    exact ⟨l'.pc, rfl, hmatches, htracks⟩
  refine hs.next (fun j e' he' => ?_) fun k' t' ht' => ?_
  · rcases set_cases he' with ⟨rfl, rfl⟩ | ⟨-, hold⟩
    · cases hrecorder : t.recorder? with
      | none =>
          obtain ⟨hwritten, -, hresult⟩ := stepOn_recording hl hrecorder
          exact .inl ⟨e, he, hwritten, fun h => hresult ▸ h, hrecorded _ j⟩
      | some i =>
          obtain ⟨pc, rfl⟩ := Thread.recorder?_eq_some.mp hrecorder
          have hpc : pc ≠ .ended := fun hpc => by simp [Thread.entry?, hpc] at hi
          obtain rfl : i = j := by simpa [hpc] using hi
          obtain ⟨pc', hpc', hmatches, htracks⟩ := hworker pc rfl
          refine .inr ⟨?_, fun k' q hk' => ?_⟩
          · rw [State.put_files_self]
            exact hmatches
          · rcases SingleOwner.getElem?_set_cases hk' with ⟨rfl, heq⟩ | ⟨hne, hold⟩
            · cases heq.trans hpc'
              rw [State.put_files_self, State.put_buffers_self]
              exact htracks
            · exact absurd (hstaffed.recorders hold ht rfl rfl) hne
    · exact .inl ⟨e', hold, rfl, id, hrecorded _ j⟩
  · rcases SingleOwner.getElem?_set_cases ht' with ⟨rfl, rfl⟩ | ⟨hne, hold⟩
    · refine .inr ?_
      cases t with
      | store op pc => cases hi
      | worker i' pc =>
          have hpc : pc ≠ .ended := fun hpc => by simp [Thread.entry?, hpc] at hi
          obtain rfl : i' = i := by simpa [hpc] using hi
          obtain ⟨pc', hpc', -, htracks⟩ := hworker pc rfl
          rw [hpc']
          intro e' he'
          have hself : (s.budget.entries.set i' l.entry)[i']? = some l.entry :=
            List.getElem?_set_self (List.getElem?_eq_some_iff.mp he).1
          obtain rfl : l.entry = e' := Option.some.inj (hself.symm.trans he')
          rw [State.put_files_self, State.put_buffers_self]
          exact htracks
      | layout j pc =>
          obtain ⟨l', hl', rfl⟩ := Option.map_eq_some_iff.mp hl
          trivial
      | cancel j pc =>
          cases a with
          | go =>
              obtain ⟨l', hl', rfl⟩ := Option.map_eq_some_iff.mp hl
              trivial
          | _ => cases hl
    · refine .inl ⟨t', hold, .refl t', ?_⟩
      rw [State.put_buffers_of_ne hne]

/-- What a file takes in of a write keeps the worker in step with it. -/
theorem Tracks.append {b : Buffers} {f : Files} {e : Entry} {pc : WorkerPc} {n : Nat}
    (h : Tracks b f e pc) (hfile : Matches f e) (hpc : appends pc = true)
    (hn : n ≤ b.chunk.length) :
    Matches { f with recorded := f.recorded ++ b.chunk.take n } e ∧
      Tracks { b with chunk := b.chunk.drop n }
        { f with recorded := f.recorded ++ b.chunk.take n } e pc := by
  have hlength : (f.recorded ++ b.chunk.take n).length = f.recorded.length + n := by
    rw [List.length_append, List.length_take, Nat.min_eq_left hn]
  refine ⟨⟨?_, fun hresult => ?_⟩, ?_, fun hresult => ?_⟩
  · rw [hlength]
    exact Nat.le_trans hfile.le (Nat.le_add_right ..)
  · have hchunk : n = 0 := by
      rw [h.complete hresult] at hn
      exact Nat.le_zero.mp hn
    have hwritten := hfile.complete hresult
    rw [hlength]
    omega
  · cases pc with
    | writing m =>
        obtain ⟨hle, hsum⟩ := h.wrote
        constructor
        · show (b.chunk.drop n).length ≤ m
          rw [List.length_drop]
          omega
        · show (f.recorded ++ b.chunk.take n).length + (b.chunk.drop n).length = _
          rw [hlength, List.length_drop]
          omega
    | ended => trivial
    | _ => cases hpc
  · show b.chunk.drop n = []
    rw [h.complete hresult, List.drop_nil]

theorem Written.append {s : State} (hs : Written s) {k n i : Nat} {pc : WorkerPc}
    (hstaffed : Staffed s.budget.entries s.budget.threads)
    (hk : s.budget.threads[k]? = some (.worker i pc)) (hpc : appends pc = true)
    (hn : n ≤ (s.buffers k).chunk.length) :
    Written (s.put s.budget k i { s.buffers k with chunk := (s.buffers k).chunk.drop n }
      { s.files i with recorded := (s.files i).recorded ++ (s.buffers k).chunk.take n }) := by
  have hanew {e : Entry} (he : s.budget.entries[i]? = some e) :=
    (hs.thread k _ hk e he).append (hs.entry i e he) hpc hn
  refine hs.next (fun j e' he' => ?_) fun k' t' ht' => ?_
  · by_cases hji : j = i
    · subst hji
      refine .inr ⟨?_, fun k' q hk' => ?_⟩
      · rw [State.put_files_self]
        exact (hanew he').1
      · obtain rfl : k' = k := hstaffed.recorders hk' hk rfl rfl
        cases hk'.symm.trans hk
        rw [State.put_files_self, State.put_buffers_self]
        exact (hanew he').2
    · exact .inl ⟨e', he', rfl, id, by rw [State.put_files_of_ne hji]⟩
  · by_cases hkk : k' = k
    · subst hkk
      cases ht'.symm.trans hk
      refine .inr fun e' he' => ?_
      rw [State.put_files_self, State.put_buffers_self]
      exact (hanew he').2
    · exact .inl ⟨t', ht', .refl t', by rw [State.put_buffers_of_ne hkk]⟩

/-- An entry comes with its file, and a worker with nothing yet. -/
theorem Written.enter {s : State} (hs : Written s) {d : Budget.Event} {b : Budget.State}
    {recorded : List UInt8} (hstaffed : Staffed s.budget.entries s.budget.threads)
    (hb : Budget.step s.budget d = some b)
    (hd : (∃ k, d = .insert k ∧ (s.buffers k).chunk = recorded) ∨
      ∃ side id limit, d = .record side id limit ∧ recorded = []) :
    Written (s.enter b recorded) := by
  have hmoves := step_moves hb
  have hfresh {side : Side} {id limit : Nat} :
      Tracks ((s.enter b recorded).buffers s.budget.threads.length)
        { recorded := [], file := true } (recordEntry side id limit) .head := by
    rw [show (s.enter b recorded).buffers s.budget.threads.length = {} from
      State.moved_buffers_new b]
    exact ⟨⟨rfl, rfl⟩, fun _ => rfl⟩
  refine hs.next (fun i e' he' => ?_) fun k t' ht' => ?_
  · cases hmoves.entry he' with
    | still he hstill =>
        exact .inl ⟨_, he, hstill.written, hstill.complete.mp, by rw [State.enter_files he]⟩
    | insert hi hk =>
        rename_i k op
        subst hi
        rcases hd with ⟨k', heq, rfl⟩ | ⟨side, id, limit, heq, -⟩ <;> cases heq
        have hlength : (s.buffers k).chunk.length = op.length :=
          hs.thread k _ hk fun h => by cases h
        rw [State.enter_files_new]
        refine .inr ⟨⟨Nat.le_of_eq hlength.symm, fun _ => hlength⟩, fun k' pc hk' => ?_⟩
        -- nobody records an entry that a store operation has made
        cases hmoves.thread hk' with
        | follows ht hfollows =>
            have hrecorder := hfollows.recorder
            exact absurd hrecorder.symm
              (hstaffed.vacant (List.mem_of_getElem? ht) (Nat.le_refl _)).1
    | record hi =>
        subst hi
        rcases hd with ⟨k', heq, -⟩ | ⟨side, id, limit, heq, rfl⟩ <;> cases heq
        rw [State.enter_files_new]
        refine .inr ⟨⟨Nat.le_refl _, fun h => by cases h⟩, fun k' pc hk' => ?_⟩
        cases hmoves.thread hk' with
        | follows ht hfollows =>
            have hrecorder := hfollows.recorder
            exact absurd hrecorder.symm
              (hstaffed.vacant (List.mem_of_getElem? ht) (Nat.le_refl _)).1
        | record hk =>
            subst hk
            exact hfresh
    | act => rcases hd with ⟨k', heq, -⟩ | ⟨side, id, limit, heq, -⟩ <;> cases heq
  · cases hmoves.thread ht' with
    | follows ht hfollows =>
        refine .inl ⟨_, ht, hfollows, ?_⟩
        rw [show (s.enter b recorded).buffers k = s.buffers k from State.moved_buffers b ht]
    | call => rcases hd with ⟨k', heq, -⟩ | ⟨side, id, limit, heq, -⟩ <;> cases heq
    | record hk =>
        subst hk
        refine .inr fun e' he' => ?_
        rw [State.enter_files_new]
        cases hmoves.entry he' with
        | still he => exact absurd rfl (ne_length he)
        | record =>
            rcases hd with ⟨k', heq, -⟩ | ⟨side, id, limit, -, rfl⟩
            · cases heq
            · exact hfresh
    | act => rcases hd with ⟨k', heq, -⟩ | ⟨side, id, limit, heq, -⟩ <;> cases heq
    | cancel => exact .inr trivial
    | layout => exact .inr trivial

/-- **Every step keeps the bytes in step with what is counted.** -/
theorem Written.step {serde : IgnoredAny} {s s' : State} {e : Event} (hs : Written s)
    (hstaffed : Staffed s.budget.entries s.budget.threads) (h : Steps serde s e s') :
    Written s' := by
  -- what neither the recorded bytes nor the chunks see
  have hsame {s₁ s₂ : State} (hs₁ : Written s₁) (hbudget : s₂.budget = s₁.budget)
      (hfiles : ∀ i, (s₂.files i).recorded = (s₁.files i).recorded)
      (hbuffers : ∀ k, (s₂.buffers k).chunk = (s₁.buffers k).chunk) : Written s₂ := by
    refine hs₁.next (fun i e he => ?_) fun k t ht => ?_
    · rw [hbudget] at he
      exact .inl ⟨e, he, rfl, id, hfiles i⟩
    · rw [hbudget] at ht
      exact .inl ⟨t, ht, .refl t, hbuffers k⟩
  have hput {k i : Nat} {b : Buffers} {f : Files} (hb : b.chunk = (s.buffers k).chunk)
      (hf : f.recorded = (s.files i).recorded) : Written (s.put s.budget k i b f) := by
    refine hsame hs rfl (fun j => ?_) fun k' => ?_
    · by_cases hji : j = i
      · subst hji
        rw [State.put_files_self, hf]
      · rw [State.put_files_of_ne hji]
    · by_cases hkk : k' = k
      · subst hkk
        rw [State.put_buffers_self, hb]
      · rw [State.put_buffers_of_ne hkk]
  cases h with
  | plain hsilent hb => exact hs.plain (.inl hsilent) hb
  | call hlength hb =>
      rename_i op bytes b
      have hmoves := step_moves hb
      refine hs.next (fun i e' he' => .inl ?_) fun k t' ht' => ?_
      · cases hmoves.entry he' with
        | still he hstill => exact ⟨_, he, hstill.written, hstill.complete.mp, rfl⟩
      · cases hmoves.thread ht' with
        | follows ht hfollows =>
            refine .inl ⟨_, ht, hfollows, congrArg Buffers.chunk ?_⟩
            exact (Function.update_of_ne (ne_length ht) ..).trans (State.moved_buffers b ht)
        | call hk =>
            subst hk
            refine .inr fun _ => ?_
            have hchunk : Function.update (s.moved b).buffers s.budget.threads.length
                { chunk := bytes } s.budget.threads.length = { chunk := bytes } :=
              Function.update_self ..
            exact (congrArg (fun b : Buffers => b.chunk.length) hchunk).trans hlength
        | cancel => exact .inr trivial
  | insert hb => exact hs.enter hstaffed hb (.inl ⟨_, rfl, rfl⟩)
  | record hb => exact hs.enter hstaffed hb (.inr ⟨_, _, _, rfl, rfl⟩)
  | step ht hi hallows hb => exact hs.act hstaffed ht hi hallows hb
  | append hk hpc hn => exact hs.append hstaffed hk hpc hn
  | format hk hdelivers hformat hb =>
      obtain ⟨e, l, he, hl, rfl⟩ := Budget.act_of_step hk rfl hb
      cases hl
      refine hs.next (fun j e' he' => .inl ?_) fun k' t' ht' => ?_
      · rcases set_cases he' with ⟨rfl, rfl⟩ | ⟨-, hold⟩
        · exact ⟨e', he, rfl, id, rfl⟩
        · exact ⟨e', hold, rfl, id, rfl⟩
      · rcases SingleOwner.getElem?_set_cases ht' with ⟨rfl, rfl⟩ | ⟨-, hold⟩
        · exact .inr trivial
        · exact .inl ⟨t', hold, .refl t', rfl⟩
  | takeFile => exact hput rfl rfl
  | takeView => exact hput rfl rfl
  | view he halive hviewed =>
      cases hviewed with
      | refused => exact hs
      | asked => exact hs
      | cancelled hb => exact hs.plain (.inr ⟨_, .inr (.inl rfl)⟩) hb
      | started _ _ _ _ hb =>
          exact hsame (hs.plain (.inr ⟨_, .inl rfl⟩) hb) rfl (fun _ => rfl) fun _ => rfl
  | permits => exact hsame hs rfl (fun _ => rfl) fun _ => rfl
  | refuse => exact hs
  | query => exact hsame hs rfl (fun _ => rfl) fun _ => rfl
  | read => exact hsame hs rfl (fun _ => rfl) fun _ => rfl
  | drop hleaves hb =>
      rename_i i b
      refine hsame (hs.plain (.inr ⟨i, .inr (.inr rfl)⟩) hb) rfl (fun j => ?_) fun _ => rfl
      by_cases hji : j = i
      · subst hji
        have hfiles : Function.update s.files j { s.files j with file := false, view := none } j =
            { s.files j with file := false, view := none } := Function.update_self ..
        have hrecorded := congrArg Files.recorded hfiles
        exact hrecorded
      · exact congrArg Files.recorded (Function.update_of_ne hji ..)

theorem written_of_reachable {serde : IgnoredAny} {s : State} (h : (bodies serde).Reachable s) :
    Written s :=
  h.invariant_along (I := Written) written_start fun hr hs _ hstep =>
    hs.step (staffed_of_reachable (budget_of_reachable hr)) (step_steps hstep)

/-- A validator that accepts an empty array. -/
def emptyArray : IgnoredAny where
  State := List UInt8
  start := []
  next s byte := .ok (s ++ [byte])
  finish s := if s = [0x5B, 0x5D] then .ok () else .error "expected value"

end SippinSoda.Bodies
