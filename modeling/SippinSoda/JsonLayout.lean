import SippinSoda.Basic
import SippinSoda.Search
import SippinSoda.Lib.Utf8
import SippinSoda.Lib.Json

/-!
# JSON layout (`proxy/bodies/inspect.rs`)

`format_json` reads a recorded body twice: once to have `serde_json` validate it, and once to copy
it with line breaks and indentation. Both passes read through a `CheckedReader`, which refuses
what is not UTF-8 or nests too deep, whatever the chunks its reads return.

`serde_json` is a parameter (`IgnoredAny`), as are the answers of the file and of the budget.
-/

namespace SippinSoda

open JsonSyntax

/-! ## Reading -/

/-- How a pass fails. -/
inductive Failure where
  /-- An index or a subtraction out of range. -/
  | panic
  | error (message : String)
  deriving DecidableEq, Repr

/-- What a read of the body's file meets; no bytes are its end. -/
inductive Fetch where
  | bytes (bytes : List UInt8)
  | failed (message : String)
  /-- The body or the query has been cancelled. -/
  | cancelled
  deriving DecidableEq, Repr

/-- The bytes a read returns. -/
def Fetch.data : Fetch → List UInt8
  | .bytes data => data
  | _ => []

structure CheckedReader where
  depth : Nat
  string : Bool
  escaped : Bool
  utf8Tail : List UInt8
  deriving DecidableEq, Repr

namespace CheckedReader

def new : CheckedReader := ⟨0, false, false, []⟩

/-- The loop body of `read`. -/
def scan (r : CheckedReader) (byte : UInt8) : Except Failure CheckedReader :=
  if r.string then
    if r.escaped then .ok { r with escaped := false }
    else if byte = 0x5C then .ok { r with escaped := true }
    else if byte = 0x22 then .ok { r with string := false }
    else .ok r
  else if byte = 0x22 then .ok { r with string := true }
  else if byte = 0x7B ∨ byte = 0x5B then
    if r.depth + 1 > 128 then .error (.error "JSON layout supports nesting up to 128 levels.")
    else .ok { r with depth := r.depth + 1 }
  else if byte = 0x7D ∨ byte = 0x5D then .ok { r with depth := r.depth - 1 }
  else .ok r

/-- The bytes that `read` keeps for the next call, when `count` of these are from this one. -/
def carry (utf8 : List UInt8) (count : Nat) : Except Failure (List UInt8) :=
  match Utf8.fromUtf8 utf8 with
  | .ok () => .ok []
  | .error error =>
    if error.errorLen.isSome ∨ count = 0 then .error (.error "JSON is not valid UTF-8.")
    else .ok (utf8.drop error.validUpTo)

/-- `CheckedReader::read`. -/
def read (r : CheckedReader) : Fetch → Except Failure (List UInt8 × CheckedReader)
  | .cancelled => .error (.error "JSON layout cancelled.")
  | .failed message => .error (.error message)
  | .bytes bytes => do
    let tail ← carry (r.utf8Tail ++ bytes) bytes.length
    let r ← bytes.foldlM scan { r with utf8Tail := tail }
    return (bytes, r)

/-- `f` over the bytes of the file, which a `BufReader` asks for when it has none left. -/
def forBytes {σ : Type} (f : σ → UInt8 → Except Failure σ) :
    List Fetch → CheckedReader → σ → Except Failure σ
  | [], r, s => do
    let _ ← r.read (.bytes [])
    return s
  | fetch :: fetches, r, s => do
    let (bytes, r) ← r.read fetch
    if bytes = [] then return s
    let s ← bytes.foldlM f s
    forBytes f fetches r s

end CheckedReader

/-! ## Writing -/

/-- What a layout meets besides the body: the outcome of opening the body for each pass and of
creating the layout's file, and for each write the bytes of the budget that are not this
writer's, whether the body or the query has been cancelled by then, and the error of the file. -/
structure LayoutEnv where
  first : Except String (List Fetch)
  second : Except String (List Fetch)
  tempfile : Except String Unit
  limit : Nat
  used : Nat → Nat
  cancelled : Nat → Bool
  ioError : Nat → Option String

structure BudgetWriter where
  file : List UInt8
  reserved : Nat
  /-- The number of writes so far. -/
  writes : Nat
  deriving DecidableEq, Repr

/-- `BudgetWriter::write`. -/
def BudgetWriter.write (env : LayoutEnv) (w : BudgetWriter) (bytes : List UInt8) :
    Except Failure BudgetWriter :=
  if env.cancelled w.writes then .error (.error "JSON layout cancelled.")
  else if env.used w.writes + w.reserved + bytes.length > env.limit then
    .error (.error "Session disk budget reached; original body remains available.")
  else match env.ioError w.writes with
    | some message => .error (.error message)
    | none => .ok ⟨w.file ++ bytes, w.reserved + bytes.length, w.writes + 1⟩

/-- A `BufWriter` of capacity `PAGE_SIZE`. -/
structure BufWriter where
  buf : List UInt8
  inner : BudgetWriter
  deriving DecidableEq, Repr

namespace BufWriter

def new : BufWriter := ⟨[], ⟨[], 0, 0⟩⟩

/-- `BufWriter::flush`, which leaves nothing to a `File`'s own `flush`. -/
def flush (env : LayoutEnv) (w : BufWriter) : Except Failure BufWriter :=
  if w.buf = [] then .ok w
  else do
    let inner ← w.inner.write env w.buf
    return ⟨[], inner⟩

/-- `BufWriter::write_all` once its buffer has room: what is as long as the buffer goes past it. -/
def put (env : LayoutEnv) (w : BufWriter) (bytes : List UInt8) : Except Failure BufWriter :=
  if bytes.length ≥ pageSize then do
    let inner ← w.inner.write env bytes
    return { w with inner }
  else .ok { w with buf := w.buf ++ bytes }

/-- `BufWriter::write_all`. -/
def writeAll (env : LayoutEnv) (w : BufWriter) (bytes : List UInt8) : Except Failure BufWriter :=
  let spare := pageSize - w.buf.length
  if bytes.length < spare then .ok { w with buf := w.buf ++ bytes }
  else if bytes.length > spare then do
    let w ← w.flush env
    w.put env bytes
  else w.put env bytes

end BufWriter

/-! ## The two passes -/

/-- A `serde_json::Deserializer` that reads an `IgnoredAny` and then the end: its state over the
bytes it takes, until it refuses one, and its verdict at the end of the file. -/
structure IgnoredAny where
  State : Type
  start : State
  next : State → UInt8 → Except String State
  finish : State → Except String Unit

/-- Its verdict on a sequence of bytes. -/
def IgnoredAny.deserialize (serde : IgnoredAny) (bytes : List UInt8) : Except String Unit := do
  serde.finish (← bytes.foldlM serde.next serde.start)

/-- The local variables of the layout pass. -/
structure Layout where
  string : Bool
  escaped : Bool
  depth : Nat
  deriving DecidableEq, Repr

namespace Layout

def new : Layout := ⟨false, false, 0⟩

/-- `vec![b' '; depth * 2]` -/
def indent (depth : Nat) : List UInt8 := List.replicate (depth * 2) 0x20

/-- A turn of the layout pass, with the arguments of its calls of `write`. -/
def turn (s : Layout) (byte : UInt8) : Except Failure (Layout × List (List UInt8)) :=
  if s.string then
    .ok (if s.escaped then { s with escaped := false }
      else if byte = 0x5C then { s with escaped := true }
      else if byte = 0x22 then { s with string := false }
      else s, [[byte]])
  else if byte = 0x22 then .ok ({ s with string := true }, [[byte]])
  else if byte = 0x7B ∨ byte = 0x5B then
    .ok ({ s with depth := s.depth + 1 }, [[byte, 0x0A], indent (s.depth + 1)])
  else if byte = 0x7D ∨ byte = 0x5D then
    match checkedSub s.depth 1 with
    | none => .error .panic
    | some depth => .ok ({ s with depth }, [[0x0A], indent depth, [byte]])
  else if byte = 0x2C then .ok (s, [[0x2C, 0x0A], indent s.depth])
  else if byte = 0x3A then .ok (s, [[0x3A, 0x20]])
  else if byte = 0x20 ∨ byte = 0x0A ∨ byte = 0x0D ∨ byte = 0x09 then .ok (s, [])
  else .ok (s, [[byte]])

end Layout

/-- The loop body of the layout pass. -/
def layoutByte (env : LayoutEnv) (s : Layout × BufWriter) (byte : UInt8) :
    Except Failure (Layout × BufWriter) := do
  let (layout, pieces) ← s.1.turn byte
  let output ← pieces.foldlM (BufWriter.writeAll env) s.2
  return (layout, output)

/-- The validation pass of `format_json`. -/
def validate (serde : IgnoredAny) (fetches : List Fetch) : Except Failure Unit := do
  let s ← CheckedReader.forBytes (fun s byte => (serde.next s byte).mapError .error) fetches .new
    serde.start
  (serde.finish s).mapError .error

/-- `format_json`: the layout's file and its size. -/
def formatJson (serde : IgnoredAny) (env : LayoutEnv) : Except Failure (List UInt8 × Nat) := do
  let fetches ← env.first.mapError .error
  (validate serde fetches).mapError fun
    | .panic => .panic
    | .error message => .error ("JSON layout unavailable: " ++ message)
  env.tempfile.mapError .error
  let fetches ← env.second.mapError .error
  let (_, output) ← CheckedReader.forBytes (layoutByte env) fetches .new (Layout.new, BufWriter.new)
  let output ← output.flush env
  return (output.inner.file, output.inner.reserved)

/-! ## What the reader accepts -/

/-- The bytes of a text. -/
def Utf8Text (bytes : List UInt8) : Prop := ∃ text, bytes = Utf8.encode text

namespace CheckedReader

/-- The bytes that are kept owe what all bytes so far owe. -/
theorem carry_cases (utf8 : List UInt8) {count : Nat} (hcount : count ≠ 0) :
    (Utf8.run [] utf8 = none ∧ ∃ e, carry utf8 count = .error e) ∨
    ∃ owed tail, Utf8.run [] utf8 = some owed ∧ carry utf8 count = .ok tail ∧
      Utf8.run [] tail = some owed := by
  have hfound := Utf8.fromUtf8_found utf8
  unfold carry
  generalize Utf8.run [] utf8 = result at hfound ⊢
  generalize Utf8.fromUtf8 utf8 = verdict at hfound ⊢
  cases hfound with
  | refused upTo len => exact .inl ⟨rfl, _, if_pos (.inl rfl)⟩
  | text => exact .inr ⟨[], [], rfl, rfl, rfl⟩
  | unfinished upTo hne hrun =>
      exact .inr ⟨_, _, rfl, if_neg (by simpa using hcount), hrun⟩

/-- The end of the file is refused where something is owed. -/
theorem carry_end {utf8 : List UInt8} : (∃ tail, carry utf8 0 = .ok tail) ↔
    Utf8.run [] utf8 = some [] := by
  have hfound := Utf8.fromUtf8_found utf8
  unfold carry
  generalize Utf8.run [] utf8 = result at hfound ⊢
  generalize Utf8.fromUtf8 utf8 = verdict at hfound ⊢
  cases hfound with
  | refused upTo len => simp
  | text => simp
  | unfinished upTo hne hrun => simpa using hne

theorem scan_tail (r : CheckedReader) (tail : List UInt8) (byte : UInt8) :
    scan { r with utf8Tail := tail } byte =
      (scan r byte).map fun r => { r with utf8Tail := tail } := by
  unfold scan
  dsimp only
  split_ifs <;> rfl

theorem foldlM_scan_tail (bytes : List UInt8) (r : CheckedReader) (tail : List UInt8) :
    bytes.foldlM scan { r with utf8Tail := tail } =
      (bytes.foldlM scan r).map fun r => { r with utf8Tail := tail } := by
  induction bytes generalizing r with
  | nil => rfl
  | cons byte bytes ih =>
      rw [List.foldlM_cons, List.foldlM_cons, scan_tail]
      cases scan r byte with
      | error e => rfl
      | ok r' => exact ih r'

theorem read_bytes (r : CheckedReader) (bytes : List UInt8) :
    r.read (.bytes bytes) = (carry (r.utf8Tail ++ bytes) bytes.length).bind fun tail =>
      (bytes.foldlM scan { r with utf8Tail := tail }).bind fun r => .ok (bytes, r) := rfl

/-- What a read of a chunk returns, after bytes to which some are owed. -/
theorem read_cases {r : CheckedReader} {owed : Utf8.Owed} {chunk : List UInt8}
    (howed : Utf8.run [] r.utf8Tail = some owed) (hne : chunk ≠ []) :
    (Utf8.run owed chunk = none ∧ ∃ e, r.read (.bytes chunk) = .error e) ∨
    ((∃ e, chunk.foldlM scan r = .error e) ∧ ∃ e, r.read (.bytes chunk) = .error e) ∨
    ∃ owed' r' tail, Utf8.run owed chunk = some owed' ∧ chunk.foldlM scan r = .ok r' ∧
      r.read (.bytes chunk) = .ok (chunk, { r' with utf8Tail := tail }) ∧
      Utf8.run [] tail = some owed' := by
  have hrun : Utf8.run [] (r.utf8Tail ++ chunk) = Utf8.run owed chunk := by
    rw [Utf8.run_append, howed, Option.bind_some]
  have hcount : chunk.length ≠ 0 := fun h => hne (List.length_eq_zero_iff.mp h)
  rw [read_bytes, ← hrun]
  rcases carry_cases (r.utf8Tail ++ chunk) hcount with
    ⟨hnone, e, hcarry⟩ | ⟨owed', tail, hsome, hcarry, htail⟩
  · rw [hcarry]
    exact .inl ⟨hnone, e, rfl⟩
  · rw [hcarry, Except.bind, foldlM_scan_tail]
    cases hscan : chunk.foldlM scan r with
    | error e => exact .inr (.inl ⟨⟨e, rfl⟩, e, rfl⟩)
    | ok r' => exact .inr (.inr ⟨owed', r', tail, hsome, rfl, rfl, htail⟩)

/-- The end of the file is read without an error if nothing is owed. -/
theorem read_end {r : CheckedReader} {owed : Utf8.Owed}
    (howed : Utf8.run [] r.utf8Tail = some owed) :
    (∃ a, r.read (.bytes []) = .ok a) ↔ owed = [] := by
  rw [← Option.some.injEq, ← howed, ← carry_end, read_bytes, List.append_nil]
  cases hcarry : carry r.utf8Tail 0 with
  | error e => simp [Except.bind]
  | ok tail => simp [Except.bind, pure, Except.pure]

/-- A pass over chunks ends without an error exactly if they are UTF-8 in all, nest within the
limit, and the pass has none of its own; where they are split does not matter. -/
theorem forBytes_eq_ok {σ : Type} {f : σ → UInt8 → Except Failure σ} {chunks : List (List UInt8)}
    (hchunks : ∀ chunk ∈ chunks, chunk ≠ []) {r : CheckedReader} {owed : Utf8.Owed}
    (howed : Utf8.run [] r.utf8Tail = some owed) {s t : σ} :
    forBytes f (chunks.map .bytes) r s = .ok t ↔
      Utf8.run owed chunks.flatten = some [] ∧ (∃ r', chunks.flatten.foldlM scan r = .ok r') ∧
        chunks.flatten.foldlM f s = .ok t := by
  induction chunks generalizing r owed s with
  | nil =>
      rw [List.map_nil, forBytes, List.flatten_nil, Utf8.run_nil, Option.some.injEq,
        ← read_end howed, Except.bind_eq_ok]
      simp [pure, Except.pure]
  | cons chunk chunks ih =>
      have hne : chunk ≠ [] := hchunks chunk List.mem_cons_self
      have hrest : ∀ chunk ∈ chunks, chunk ≠ [] := fun c hc => hchunks c (List.mem_cons_of_mem _ hc)
      rw [List.map_cons, forBytes, List.flatten_cons, Utf8.run_append, List.foldlM_append,
        List.foldlM_append]
      rcases read_cases howed hne with ⟨hrun, e, hread⟩ | ⟨⟨e', hscan⟩, e, hread⟩ |
        ⟨owed', r', tail, hrun, hscan, hread, htail⟩
      · rw [hread, hrun]
        simp [bind, Except.bind]
      · rw [hread, hscan]
        simp [bind, Except.bind]
      · have hscans : (∃ r'', chunks.flatten.foldlM scan { r' with utf8Tail := tail } = .ok r'') ↔
            ∃ r'', chunks.flatten.foldlM scan r' = .ok r'' := by
          rw [foldlM_scan_tail]
          cases chunks.flatten.foldlM scan r' <;> simp [Except.map]
        rw [hread, hrun, hscan]
        cases hf : chunk.foldlM f s with
        | error e => simp [bind, Except.bind, hne, hf]
        | ok s' =>
            have hih := ih hrest (r := { r' with utf8Tail := tail }) htail (s := s')
            rw [hscans] at hih
            simpa [bind, Except.bind, hne, hf] using hih

/-! ## How deep the reader finds a text to nest -/

/-- The reader between two tokens. -/
def outside (depth : Nat) (tail : List UInt8) : CheckedReader := ⟨depth, false, false, tail⟩

theorem scan_copies (depth : Nat) (tail : List UInt8) :
    Copies scan (fun _ => outside depth tail) (fun _ => ⟨depth, true, false, tail⟩)
      (fun _ => ⟨depth, true, true, tail⟩) where
  plain _ b hb := by
    obtain ⟨-, hquote, -, -, hopen, hclose, hopen', hclose'⟩ := isPlain_iff.mp hb
    simp [scan, outside, hquote, hopen, hclose, hopen', hclose']
  space _ b hb := by
    simp only [isSpace, Bool.or_eq_true, beq_iff_eq] at hb
    rcases hb with ((rfl | rfl) | rfl) | rfl <;> rfl
  opens _ := rfl
  closes _ := rfl
  unescaped _ b hquote hbackslash := by simp [scan, hquote, hbackslash]
  escape _ := rfl
  skip _ b := rfl

theorem scan_opening (bracket : Bracket) (depth : Nat) (tail : List UInt8) :
    scan (outside depth tail) bracket.opening =
      if depth + 1 > 128 then .error (.error "JSON layout supports nesting up to 128 levels.")
      else .ok (outside (depth + 1) tail) := by
  cases bracket <;> rfl

theorem scan_closing (bracket : Bracket) (depth : Nat) (tail : List UInt8) :
    scan (outside (depth + 1) tail) bracket.closing = .ok (outside depth tail) := by
  cases bracket <;> rfl

/-- The reader refuses what nests deeper than is left of the limit. -/
theorem foldlM_scan {kind : JsonSyntax.Kind} {n : Nat} {bytes : List UInt8}
    (h : Derives kind n bytes) {depth : Nat} (hdepth : depth ≤ 128) (tail : List UInt8) :
    bytes.foldlM scan (outside depth tail) =
      if depth + n > 128 then .error (.error "JSON layout supports nesting up to 128 levels.")
      else .ok (outside depth tail) := by
  induction h generalizing depth with
  | scalar h =>
      rw [if_neg (by omega)]
      exact (scan_copies depth tail).scalar h.plain []
  | string h =>
      rw [if_neg (by omega)]
      exact (scan_copies depth tail).quoted h []
  | empty bracket h =>
      rw [List.foldlM_cons, scan_opening]
      by_cases hdeep : depth + 1 > 128
      · rw [if_pos hdeep, if_pos hdeep]
        rfl
      · rw [if_neg hdeep, if_neg hdeep]
        show List.foldlM scan (outside (depth + 1) tail) _ = _
        rw [List.foldlM_append, (scan_copies (depth + 1) tail).ws h []]
        show [bracket.closing].foldlM scan (outside (depth + 1) tail) = _
        rw [List.foldlM_cons, scan_closing]
        rfl
  | @group bracket n body h ih =>
      rw [List.foldlM_cons, scan_opening]
      by_cases hdeep : depth + 1 > 128
      · rw [if_pos hdeep, if_pos (by omega)]
        rfl
      · rw [if_neg hdeep]
        show List.foldlM scan (outside (depth + 1) tail) _ = _
        rw [List.foldlM_append, ih (by omega), Nat.add_right_comm, Nat.add_assoc]
        by_cases hbody : depth + (n + 1) > 128
        · rw [if_pos hbody, if_pos hbody]
          rfl
        · rw [if_neg hbody, if_neg hbody]
          show [bracket.closing].foldlM scan (outside (depth + 1) tail) = _
          rw [List.foldlM_cons, scan_closing]
          rfl
  | @element n before value after hbefore _ hafter ih =>
      rw [List.foldlM_append, List.foldlM_append, (scan_copies depth tail).ws hbefore []]
      show (value.foldlM scan (outside depth tail) >>= fun r => after.foldlM scan r) = _
      rw [ih hdepth]
      by_cases hdeep : depth + n > 128
      · rw [if_pos hdeep]
        rfl
      · rw [if_neg hdeep]
        exact (scan_copies depth tail).ws hafter []
  | @member n before key mid rest hbefore hkey hmid _ ih =>
      rw [List.foldlM_append, List.foldlM_append, List.foldlM_append,
        (scan_copies depth tail).ws hbefore []]
      show (key.foldlM scan (outside depth tail) >>= fun r => mid.foldlM scan r) >>= _ = _
      rw [(scan_copies depth tail).quoted hkey []]
      show mid.foldlM scan (outside depth tail) >>= _ = _
      rw [(scan_copies depth tail).ws hmid []]
      exact ih hdepth
  | one _ ih => exact ih hdepth
  | @more bracket m n item rest _ _ ihItem ihRest =>
      rw [List.foldlM_append, ihItem hdepth]
      by_cases hitem : depth + m > 128
      · rw [if_pos hitem, if_pos (by omega)]
        rfl
      · rw [if_neg hitem]
        show rest.foldlM scan (outside depth tail) = _
        rw [ihRest hdepth]
        by_cases hrest : depth + n > 128
        · rw [if_pos hrest, if_pos (by omega)]
        · rw [if_neg hrest, if_neg (by omega)]

end CheckedReader

/-! ## What the layout pass writes -/

namespace Layout

/-- A turn, when all bytes written before are at hand. -/
def write (s : Layout × List UInt8) (byte : UInt8) : Except Failure (Layout × List UInt8) := do
  let (layout, pieces) ← s.1.turn byte
  return (layout, s.2 ++ pieces.flatten)

/-- The layout pass between two tokens. -/
def outside (depth : Nat) : Layout := ⟨false, false, depth⟩

/-- A line break and the indentation of the next line. -/
def newline (depth : Nat) : List UInt8 := 0x0A :: indent depth

theorem ws_newline (depth : Nat) : Ws (newline depth) := by
  intro b hb
  rcases List.mem_cons.mp hb with rfl | hb
  · rfl
  · obtain rfl := List.eq_of_mem_replicate hb
    rfl

theorem write_copies (depth : Nat) (out : List UInt8) :
    Copies write (fun copied => (outside depth, out ++ copied))
      (fun copied => (⟨true, false, depth⟩, out ++ copied))
      (fun copied => (⟨true, true, depth⟩, out ++ copied)) where
  plain copied b hb := by
    obtain ⟨hspace, hquote, hcomma, hcolon, hopen, hclose, hopen', hclose'⟩ := isPlain_iff.mp hb
    simp only [isSpace, Bool.or_eq_false_iff, beq_eq_false_iff_ne] at hspace
    simp [write, turn, outside, hquote, hcomma, hcolon, hopen, hclose, hopen', hclose', hspace,
      bind, Except.bind, pure, Except.pure]
  space copied b hb := by
    simp only [isSpace, Bool.or_eq_true, beq_iff_eq] at hb
    show write (outside depth, out ++ copied) b = .ok (outside depth, out ++ copied)
    rcases hb with ((rfl | rfl) | rfl) | rfl <;>
      simp [write, turn, outside, bind, Except.bind, pure, Except.pure]
  opens copied := by
    simp [write, turn, outside, bind, Except.bind, pure, Except.pure]
  closes copied := by
    have hquote : quote ≠ backslash := by decide
    simp [write, turn, outside, hquote, bind, Except.bind, pure, Except.pure]
  unescaped copied b hquote hbackslash := by
    simp [write, turn, hquote, hbackslash, bind, Except.bind, pure, Except.pure]
  escape copied := by
    simp [write, turn, bind, Except.bind, pure, Except.pure]
  skip copied b := by
    simp [write, turn, bind, Except.bind, pure, Except.pure]

theorem write_opening (bracket : Bracket) (depth : Nat) (out : List UInt8) :
    write (outside depth, out) bracket.opening =
      .ok (outside (depth + 1), out ++ bracket.opening :: newline (depth + 1)) := by
  cases bracket <;>
    simp [write, turn, outside, newline, Bracket.opening, bind, Except.bind, pure, Except.pure]

theorem write_closing (bracket : Bracket) (depth : Nat) (out : List UInt8) :
    write (outside (depth + 1), out) bracket.closing =
      .ok (outside depth, out ++ newline depth ++ [bracket.closing]) := by
  cases bracket <;>
    simp [write, turn, outside, newline, checkedSub, Bracket.closing, bind, Except.bind, pure,
      Except.pure]

theorem write_comma (depth : Nat) (out : List UInt8) :
    write (outside depth, out) comma = .ok (outside depth, out ++ comma :: newline depth) := by
  have hturn : (outside depth).turn comma = .ok (outside depth, [[comma, 0x0A], indent depth]) := rfl
  simp [write, hturn, newline, bind, Except.bind, pure, Except.pure]

theorem write_colon (depth : Nat) (out : List UInt8) :
    write (outside depth, out) colon = .ok (outside depth, out ++ [colon, 0x20]) := by
  have hturn : (outside depth).turn colon = .ok (outside depth, [[colon, 0x20]]) := rfl
  simp [write, hturn, bind, Except.bind, pure, Except.pure]

/-- **The layout of a text is a text** that nests to the same depth, and the indentation is back
where it was. -/
theorem foldlM_write {kind : JsonSyntax.Kind} {n : Nat} {bytes : List UInt8}
    (h : Derives kind n bytes) (depth : Nat) (out : List UInt8) :
    ∃ laid, bytes.foldlM write (outside depth, out) = .ok (outside depth, out ++ laid) ∧
      Derives kind n laid := by
  induction h generalizing depth out with
  | @scalar token h =>
      have hcopied := (write_copies depth out).scalar h.plain []
      rw [List.append_nil] at hcopied
      exact ⟨token, hcopied, .scalar h⟩
  | @string token h =>
      have hcopied := (write_copies depth out).quoted h []
      rw [List.append_nil] at hcopied
      exact ⟨token, hcopied, .string h⟩
  | @empty bracket space h =>
      have hspace := (write_copies (depth + 1)
        (out ++ bracket.opening :: newline (depth + 1))).ws h []
      rw [List.append_nil] at hspace
      refine ⟨_, ?_, .empty bracket ((ws_newline (depth + 1)).append (ws_newline depth))⟩
      rw [List.foldlM_cons, write_opening]
      show List.foldlM write (outside (depth + 1), _) _ = _
      rw [List.foldlM_append, hspace]
      show [bracket.closing].foldlM write (outside (depth + 1), _) = _
      rw [List.foldlM_cons, write_closing]
      simp [pure, Except.pure, bind, Except.bind]
  | @group bracket n body h ih =>
      obtain ⟨laid, hlaid, hderives⟩ :=
        ih (depth + 1) (out ++ bracket.opening :: newline (depth + 1))
      refine ⟨_, ?_, .group ((hderives.padLeft trivial (ws_newline (depth + 1))).padRight trivial
        (ws_newline depth))⟩
      rw [List.foldlM_cons, write_opening]
      show List.foldlM write (outside (depth + 1), _) _ = _
      rw [List.foldlM_append, hlaid]
      show [bracket.closing].foldlM write (outside (depth + 1), _) = _
      rw [List.foldlM_cons, write_closing]
      simp [pure, Except.pure, bind, Except.bind]
  | @element n before value after hbefore _ hafter ih =>
      obtain ⟨laid, hlaid, hderives⟩ := ih depth out
      have hspace := (write_copies depth out).ws hbefore []
      have hspace' := (write_copies depth (out ++ laid)).ws hafter []
      rw [List.append_nil] at hspace hspace'
      refine ⟨laid, ?_, ?_⟩
      · rw [List.foldlM_append, List.foldlM_append, hspace]
        show (value.foldlM write (outside depth, out) >>= fun s => after.foldlM write s) = _
        rw [hlaid]
        exact hspace'
      · have hws : Ws [] := fun _ h => absurd h List.not_mem_nil
        have helement := Derives.element hws hderives hws
        rwa [List.append_nil, List.nil_append] at helement
  | @member n before key mid rest hbefore hkey hmid _ ih =>
      obtain ⟨laid, hlaid, hderives⟩ := ih depth (out ++ key ++ [colon, 0x20])
      have hspace := (write_copies depth out).ws hbefore []
      have hquoted := (write_copies depth out).quoted hkey []
      have hspace' := (write_copies depth (out ++ key)).ws hmid []
      rw [List.append_nil] at hspace hquoted hspace'
      have hws : Ws [] := fun _ h => absurd h List.not_mem_nil
      have hblank : Ws [0x20] := List.all_eq_true.mp rfl
      refine ⟨_, ?_, .member hws hkey hws (hderives.padLeft trivial hblank)⟩
      rw [List.foldlM_append, List.foldlM_append, List.foldlM_append, hspace]
      show (key.foldlM write (outside depth, out) >>= fun s => mid.foldlM write s) >>= _ = _
      rw [hquoted]
      show mid.foldlM write (outside depth, out ++ key) >>= _ = _
      rw [hspace']
      show List.foldlM write (outside depth, out ++ key) (colon :: rest) = _
      rw [List.foldlM_cons, write_colon]
      show List.foldlM write (outside depth, _) rest = _
      rw [hlaid]
      simp
  | one _ ih =>
      obtain ⟨laid, hlaid, hderives⟩ := ih depth out
      exact ⟨laid, hlaid, .one hderives⟩
  | @more bracket m n item rest _ _ ihItem ihRest =>
      obtain ⟨first, hfirst, hitem⟩ := ihItem depth out
      obtain ⟨laid, hlaid, hrest⟩ := ihRest depth (out ++ first ++ comma :: newline depth)
      refine ⟨_, ?_, .more hitem (hrest.padLeft trivial (ws_newline depth))⟩
      rw [List.foldlM_append, hfirst]
      show List.foldlM write (outside depth, out ++ first) (comma :: rest) = _
      rw [List.foldlM_cons, write_comma]
      show List.foldlM write (outside depth, _) rest = _
      rw [hlaid]
      simp

/-- What has been written stays. -/
theorem foldlM_write_prefix {bytes : List UInt8} {s t : Layout × List UInt8}
    (h : bytes.foldlM write s = .ok t) : s.2 <+: t.2 := by
  induction bytes generalizing s with
  | nil =>
      obtain rfl := Except.ok.inj h
      exact List.prefix_rfl
  | cons byte bytes ih =>
      rw [List.foldlM_cons] at h
      obtain ⟨u, hu, hrest⟩ := Except.bind_eq_ok.mp h
      obtain ⟨⟨layout, pieces⟩, -, hpieces⟩ := Except.bind_eq_ok.mp hu
      obtain rfl := Except.ok.inj hpieces
      exact (List.prefix_append _ _).trans (ih hrest)

end Layout

/-! ## What the writer keeps -/

/-- The layout's file and the body are at hand, and nothing is cancelled. -/
structure LayoutEnv.Ready (env : LayoutEnv) : Prop where
  cancelled : ∀ n, env.cancelled n = false
  ioError : ∀ n, env.ioError n = none

/-- The budget has this many bytes left at every write. -/
def LayoutEnv.Room (env : LayoutEnv) (size : Nat) : Prop := ∀ n, env.used n + size ≤ env.limit

theorem BudgetWriter.write_eq_ok {env : LayoutEnv} {w w' : BudgetWriter} {bytes : List UInt8}
    (h : w.write env bytes = .ok w') :
    w'.file = w.file ++ bytes ∧ w'.reserved = w.reserved + bytes.length := by
  unfold write at h
  split_ifs at h
  split at h
  · exact absurd h (by simp)
  · obtain rfl := Except.ok.inj h
    exact ⟨rfl, rfl⟩

theorem BudgetWriter.write_of_room {env : LayoutEnv} (hready : env.Ready) {size : Nat}
    (hroom : env.Room size) {w : BudgetWriter} {bytes : List UInt8}
    (hsize : w.reserved + bytes.length ≤ size) : ∃ w', w.write env bytes = .ok w' := by
  have hlimit := hroom w.writes
  unfold write
  rw [if_neg (by rw [hready.cancelled]; exact Bool.false_ne_true), if_neg (by omega),
    hready.ioError]
  exact ⟨_, rfl⟩

namespace BufWriter

/-- Everything written so far. -/
def content (w : BufWriter) : List UInt8 := w.inner.file ++ w.buf

/-- The writer has reserved what is in its file. -/
def Balanced (w : BufWriter) : Prop := w.inner.reserved = w.inner.file.length

theorem flush_eq_ok {env : LayoutEnv} {w w' : BufWriter} (h : w.flush env = .ok w')
    (hbalanced : w.Balanced) : w'.content = w.content ∧ w'.Balanced ∧ w'.buf = [] := by
  unfold flush at h
  split_ifs at h with hbuf
  · obtain rfl := Except.ok.inj h
    exact ⟨rfl, hbalanced, hbuf⟩
  · obtain ⟨inner, hinner, hw'⟩ := Except.bind_eq_ok.mp h
    obtain rfl := Except.ok.inj hw'
    obtain ⟨hfile, hreserved⟩ := BudgetWriter.write_eq_ok hinner
    refine ⟨?_, ?_, rfl⟩
    · show inner.file ++ [] = w.inner.file ++ w.buf
      rw [hfile, List.append_nil]
    · show inner.reserved = inner.file.length
      rw [hfile, hreserved, List.length_append, hbalanced]

theorem flush_of_room {env : LayoutEnv} (hready : env.Ready) {size : Nat} (hroom : env.Room size)
    {w : BufWriter} (hbalanced : w.Balanced) (hsize : w.content.length ≤ size) :
    ∃ w', w.flush env = .ok w' := by
  rw [content, List.length_append, ← hbalanced] at hsize
  obtain ⟨inner, hinner⟩ := BudgetWriter.write_of_room hready hroom hsize
  unfold flush
  split_ifs
  · exact ⟨w, rfl⟩
  · exact ⟨⟨[], inner⟩, by rw [hinner]; rfl⟩

theorem put_eq_ok {env : LayoutEnv} {w w' : BufWriter} {bytes : List UInt8}
    (h : w.put env bytes = .ok w') (hbalanced : w.Balanced)
    (hbuf : bytes.length ≥ pageSize → w.buf = []) :
    w'.content = w.content ++ bytes ∧ w'.Balanced := by
  unfold put at h
  split_ifs at h with hlong
  · obtain ⟨inner, hinner, hw'⟩ := Except.bind_eq_ok.mp h
    obtain rfl := Except.ok.inj hw'
    obtain ⟨hfile, hreserved⟩ := BudgetWriter.write_eq_ok hinner
    constructor
    · show inner.file ++ w.buf = w.inner.file ++ w.buf ++ bytes
      rw [hfile, hbuf hlong, List.append_nil, List.append_nil]
    · show inner.reserved = inner.file.length
      rw [hfile, hreserved, List.length_append, hbalanced]
  · obtain rfl := Except.ok.inj h
    exact ⟨(List.append_assoc _ _ _).symm, hbalanced⟩

theorem put_of_room {env : LayoutEnv} (hready : env.Ready) {size : Nat} (hroom : env.Room size)
    {w : BufWriter} (hbalanced : w.Balanced) {bytes : List UInt8}
    (hsize : w.content.length + bytes.length ≤ size) : ∃ w', w.put env bytes = .ok w' := by
  unfold put
  split_ifs
  · have hinner : w.inner.reserved + bytes.length ≤ size := by
      rw [content, List.length_append, ← hbalanced] at hsize
      omega
    obtain ⟨inner, hinner⟩ := BudgetWriter.write_of_room hready hroom hinner
    exact ⟨{ w with inner }, by rw [hinner]; rfl⟩
  · exact ⟨_, rfl⟩

theorem writeAll_eq_ok {env : LayoutEnv} {w w' : BufWriter} {bytes : List UInt8}
    (h : w.writeAll env bytes = .ok w') (hbalanced : w.Balanced) :
    w'.content = w.content ++ bytes ∧ w'.Balanced := by
  unfold writeAll at h
  dsimp only at h
  split_ifs at h with hspare hflush
  · obtain rfl := Except.ok.inj h
    exact ⟨(List.append_assoc _ _ _).symm, hbalanced⟩
  · obtain ⟨u, hu, hput⟩ := Except.bind_eq_ok.mp h
    obtain ⟨hcontent, hbalanced, hbuf⟩ := flush_eq_ok hu hbalanced
    rw [← hcontent]
    exact put_eq_ok hput hbalanced fun _ => hbuf
  · refine put_eq_ok h hbalanced fun hlong => ?_
    -- The bytes fill the whole buffer, so it is empty.
    have hpage : 0 < pageSize := by decide
    exact List.length_eq_zero_iff.mp (by omega)

theorem writeAll_of_room {env : LayoutEnv} (hready : env.Ready) {size : Nat}
    (hroom : env.Room size) {w : BufWriter} (hbalanced : w.Balanced) {bytes : List UInt8}
    (hsize : w.content.length + bytes.length ≤ size) : ∃ w', w.writeAll env bytes = .ok w' := by
  unfold writeAll
  dsimp only
  split_ifs
  · exact ⟨_, rfl⟩
  · obtain ⟨u, hu⟩ := flush_of_room hready hroom hbalanced (by omega)
    obtain ⟨hcontent, hbalanced, -⟩ := flush_eq_ok hu hbalanced
    have hfits : u.content.length + bytes.length ≤ size := by
      rw [hcontent]
      omega
    obtain ⟨w', hw'⟩ := put_of_room hready hroom hbalanced hfits
    exact ⟨w', by rw [hu]; exact hw'⟩
  · exact put_of_room hready hroom hbalanced hsize

/-- Several pieces are written as one. -/
theorem foldlM_writeAll_eq_ok {env : LayoutEnv} {pieces : List (List UInt8)} {w w' : BufWriter}
    (h : pieces.foldlM (writeAll env) w = .ok w') (hbalanced : w.Balanced) :
    w'.content = w.content ++ pieces.flatten ∧ w'.Balanced := by
  induction pieces generalizing w with
  | nil =>
      obtain rfl := Except.ok.inj h
      exact ⟨(List.append_nil _).symm, hbalanced⟩
  | cons bytes pieces ih =>
      rw [List.foldlM_cons] at h
      obtain ⟨u, hu, hrest⟩ := Except.bind_eq_ok.mp h
      obtain ⟨hcontent, hbalanced⟩ := writeAll_eq_ok hu hbalanced
      obtain ⟨hcontent', hbalanced'⟩ := ih hrest hbalanced
      refine ⟨?_, hbalanced'⟩
      rw [hcontent', hcontent, List.append_assoc, List.flatten_cons]

theorem foldlM_writeAll_of_room {env : LayoutEnv} (hready : env.Ready) {size : Nat}
    (hroom : env.Room size) {pieces : List (List UInt8)} {w : BufWriter} (hbalanced : w.Balanced)
    (hsize : w.content.length + pieces.flatten.length ≤ size) :
    ∃ w', pieces.foldlM (writeAll env) w = .ok w' := by
  induction pieces generalizing w with
  | nil => exact ⟨w, rfl⟩
  | cons bytes pieces ih =>
      rw [List.flatten_cons, List.length_append] at hsize
      have hfits : w.content.length + bytes.length ≤ size := by omega
      obtain ⟨u, hu⟩ := writeAll_of_room hready hroom hbalanced hfits
      obtain ⟨hcontent, hbalanced⟩ := writeAll_eq_ok hu hbalanced
      obtain ⟨w', hw'⟩ := ih hbalanced (by rw [hcontent, List.length_append]; omega)
      exact ⟨w', by rw [List.foldlM_cons, hu]; exact hw'⟩

end BufWriter

/-! ## The layout pass -/

/-- The pass writes what the turns give. -/
theorem foldlM_layoutByte_eq_ok {env : LayoutEnv} {bytes : List UInt8} {s t : Layout × BufWriter}
    (h : bytes.foldlM (layoutByte env) s = .ok t) (hbalanced : s.2.Balanced) :
    bytes.foldlM Layout.write (s.1, s.2.content) = .ok (t.1, t.2.content) ∧ t.2.Balanced := by
  induction bytes generalizing s with
  | nil =>
      obtain rfl := Except.ok.inj h
      exact ⟨rfl, hbalanced⟩
  | cons byte bytes ih =>
      rw [List.foldlM_cons] at h
      obtain ⟨u, hu, hrest⟩ := Except.bind_eq_ok.mp h
      obtain ⟨⟨layout, pieces⟩, hturn, hpieces⟩ := Except.bind_eq_ok.mp hu
      obtain ⟨output, houtput, hu⟩ := Except.bind_eq_ok.mp hpieces
      obtain rfl := Except.ok.inj hu
      obtain ⟨hcontent, hbalanced⟩ := BufWriter.foldlM_writeAll_eq_ok houtput hbalanced
      obtain ⟨hwrite, hbalanced'⟩ := ih hrest hbalanced
      refine ⟨?_, hbalanced'⟩
      rw [List.foldlM_cons, Layout.write, hturn]
      show bytes.foldlM Layout.write (layout, s.2.content ++ pieces.flatten) = _
      rw [← hcontent]
      exact hwrite

theorem foldlM_layoutByte_of_room {env : LayoutEnv} (hready : env.Ready) {bytes : List UInt8}
    {s : Layout × BufWriter} {t : Layout × List UInt8} (hroom : env.Room t.2.length)
    (h : bytes.foldlM Layout.write (s.1, s.2.content) = .ok t) (hbalanced : s.2.Balanced) :
    ∃ t', bytes.foldlM (layoutByte env) s = .ok t' := by
  induction bytes generalizing s with
  | nil => exact ⟨s, rfl⟩
  | cons byte bytes ih =>
      rw [List.foldlM_cons] at h
      obtain ⟨u, hu, hrest⟩ := Except.bind_eq_ok.mp h
      obtain ⟨⟨layout, pieces⟩, hturn, hpieces⟩ := Except.bind_eq_ok.mp hu
      obtain rfl := Except.ok.inj hpieces
      have hsize := (Layout.foldlM_write_prefix hrest).length_le
      dsimp only at hturn hrest hsize
      rw [List.length_append] at hsize
      obtain ⟨output, houtput⟩ := BufWriter.foldlM_writeAll_of_room hready hroom hbalanced hsize
      obtain ⟨hcontent, hbalanced⟩ := BufWriter.foldlM_writeAll_eq_ok houtput hbalanced
      rw [← hcontent] at hrest
      obtain ⟨t', ht'⟩ := ih (s := (layout, output)) hrest hbalanced
      refine ⟨t', ?_⟩
      rw [List.foldlM_cons, layoutByte, hturn]
      show (pieces.foldlM (BufWriter.writeAll env) s.2 >>= fun output => _) >>= _ = _
      rw [houtput]
      exact ht'

/-! ## The two passes over one file -/

/-- The reads of a pass return these bytes in some chunks, and then the end of the file. -/
def Splits (pass : Except String (List Fetch)) (bytes : List UInt8) : Prop :=
  ∃ chunks : List (List UInt8), pass = .ok (chunks.map .bytes) ∧ (∀ chunk ∈ chunks, chunk ≠ []) ∧
    chunks.flatten = bytes

/-- Both passes read the body, however it is split; and the layout's file can be created. -/
structure LayoutEnv.Delivers (env : LayoutEnv) (bytes : List UInt8) : Prop where
  first : Splits env.first bytes
  second : Splits env.second bytes
  tempfile : env.tempfile = .ok ()

/-- The reader takes these bytes: they are UTF-8 and nest within the limit. -/
def Readable (bytes : List UInt8) : Prop :=
  Utf8.run [] bytes = some [] ∧ ∃ r, bytes.foldlM CheckedReader.scan .new = .ok r

theorem Splits.forBytes {pass : Except String (List Fetch)} {bytes : List UInt8}
    (h : Splits pass bytes) : ∃ fetches, pass = .ok fetches ∧
      ∀ {σ : Type} {f : σ → UInt8 → Except Failure σ} {s t : σ},
        CheckedReader.forBytes f fetches .new s = .ok t ↔
          Readable bytes ∧ bytes.foldlM f s = .ok t := by
  obtain ⟨chunks, rfl, hchunks, rfl⟩ := h
  refine ⟨_, rfl, ?_⟩
  intro σ f s t
  rw [Readable, and_assoc]
  exact CheckedReader.forBytes_eq_ok hchunks rfl

theorem mapError_eq_ok {ε ε' α : Type} {f : ε → ε'} {x : Except ε α} {a : α} :
    x.mapError f = .ok a ↔ x = .ok a := by
  cases x <;> simp [Except.mapError]

theorem foldlM_mapError {σ : Type} {next : σ → UInt8 → Except String σ} {bytes : List UInt8}
    {s t : σ} : bytes.foldlM (fun s byte => (next s byte).mapError Failure.error) s = .ok t ↔
      bytes.foldlM next s = .ok t := by
  induction bytes generalizing s with
  | nil => simp [pure, Except.pure]
  | cons byte bytes ih =>
      rw [List.foldlM_cons, List.foldlM_cons, Except.bind_eq_ok, Except.bind_eq_ok]
      simp only [mapError_eq_ok, ih]

/-- What a layout needs, but for the budget. -/
structure LaidOut (serde : IgnoredAny) (bytes layout : List UInt8) : Prop where
  readable : Readable bytes
  valid : serde.deserialize bytes = .ok ()
  written : ∃ s, bytes.foldlM Layout.write (Layout.new, []) = .ok (s, layout)

section FormatJson

variable {serde : IgnoredAny} {env : LayoutEnv} {bytes : List UInt8}

theorem laidOut_of_formatJson (henv : env.Delivers bytes) {layout : List UInt8} {size : Nat}
    (h : formatJson serde env = .ok (layout, size)) :
    LaidOut serde bytes layout ∧ size = layout.length := by
  obtain ⟨fetches, hfirst, hreads⟩ := henv.first.forBytes
  obtain ⟨fetches', hsecond, hreads'⟩ := henv.second.forBytes
  obtain ⟨fetches, hopen, h⟩ := Except.bind_eq_ok.mp h
  rw [hfirst, mapError_eq_ok] at hopen
  obtain rfl := Except.ok.inj hopen
  obtain ⟨⟨⟩, hde, h⟩ := Except.bind_eq_ok.mp h
  obtain ⟨⟨⟩, -, h⟩ := Except.bind_eq_ok.mp h
  obtain ⟨fetches', hopen, h⟩ := Except.bind_eq_ok.mp h
  rw [hsecond, mapError_eq_ok] at hopen
  obtain rfl := Except.ok.inj hopen
  obtain ⟨⟨s, output⟩, hpass, h⟩ := Except.bind_eq_ok.mp h
  obtain ⟨output', hflush, h⟩ := Except.bind_eq_ok.mp h
  obtain ⟨state, hnext, hfinish⟩ := Except.bind_eq_ok.mp (mapError_eq_ok.mp hde)
  obtain ⟨hreadable, hnext⟩ := hreads.mp hnext
  obtain ⟨hwrite, hbalanced⟩ := foldlM_layoutByte_eq_ok (hreads'.mp hpass).2 rfl
  obtain ⟨hcontent, hbalanced, hbuf⟩ := BufWriter.flush_eq_ok hflush hbalanced
  obtain ⟨rfl, rfl⟩ := Prod.mk.inj (Except.ok.inj h)
  rw [BufWriter.content, hbuf, List.append_nil] at hcontent
  refine ⟨⟨hreadable, ?_, s, ?_⟩, hbalanced⟩
  · exact Except.bind_eq_ok.mpr ⟨state, foldlM_mapError.mp hnext, mapError_eq_ok.mp hfinish⟩
  · rw [hcontent]
    exact hwrite

theorem formatJson_of_laidOut (henv : env.Delivers bytes) (hready : env.Ready)
    {layout : List UInt8} (hroom : env.Room layout.length) (h : LaidOut serde bytes layout) :
    formatJson serde env = .ok (layout, layout.length) := by
  obtain ⟨fetches, hfirst, hreads⟩ := henv.first.forBytes
  obtain ⟨fetches', hsecond, hreads'⟩ := henv.second.forBytes
  obtain ⟨s, hwrite⟩ := h.written
  obtain ⟨state, hnext, hfinish⟩ := Except.bind_eq_ok.mp h.valid
  have hwrite : bytes.foldlM Layout.write (Layout.new, BufWriter.new.content) = .ok (s, layout) :=
    hwrite
  obtain ⟨⟨s', output⟩, hpass⟩ := foldlM_layoutByte_of_room (s := (Layout.new, BufWriter.new))
    hready hroom hwrite rfl
  obtain ⟨hwrite', hbalanced⟩ := foldlM_layoutByte_eq_ok hpass rfl
  obtain ⟨rfl, hlayout⟩ := Prod.mk.inj (Except.ok.inj (hwrite.symm.trans hwrite'))
  obtain ⟨output', hflush⟩ := BufWriter.flush_of_room hready hroom hbalanced
    (Nat.le_of_eq (congrArg List.length hlayout).symm)
  obtain ⟨hcontent, hbalanced, hbuf⟩ := BufWriter.flush_eq_ok hflush hbalanced
  rw [BufWriter.content, hbuf, List.append_nil, ← hlayout] at hcontent
  refine Except.bind_eq_ok.mpr ⟨fetches, mapError_eq_ok.mpr hfirst, ?_⟩
  refine Except.bind_eq_ok.mpr ⟨(), mapError_eq_ok.mpr ?_, ?_⟩
  · refine Except.bind_eq_ok.mpr ⟨state, ?_, mapError_eq_ok.mpr hfinish⟩
    exact hreads.mpr ⟨h.readable, foldlM_mapError.mpr hnext⟩
  refine Except.bind_eq_ok.mpr ⟨(), mapError_eq_ok.mpr henv.tempfile, ?_⟩
  refine Except.bind_eq_ok.mpr ⟨fetches', mapError_eq_ok.mpr hsecond, ?_⟩
  refine Except.bind_eq_ok.mpr ⟨(s, output), hreads'.mpr ⟨h.readable, hpass⟩, ?_⟩
  refine Except.bind_eq_ok.mpr ⟨output', hflush, ?_⟩
  have hsize : output'.inner.reserved = layout.length := by
    rw [← hcontent]
    exact hbalanced
  rw [hcontent, hsize]
  rfl

end FormatJson

/-! ## What is accepted -/

/-- `serde_json` accepts the JSON texts. -/
def IgnoredAny.Validates (serde : IgnoredAny) : Prop :=
  ∀ bytes, serde.deserialize bytes = .ok () ↔ ∃ n, Text n bytes

/-- The reader takes a JSON text exactly if it is UTF-8 and nests within the limit. -/
theorem readable_iff {bytes : List UInt8} {n : Nat} (h : Text n bytes) :
    Readable bytes ↔ Utf8Text bytes ∧ n ≤ 128 := by
  have hscan := CheckedReader.foldlM_scan h (Nat.zero_le 128) []
  have hdepth : (∃ r, bytes.foldlM CheckedReader.scan .new = .ok r) ↔ n ≤ 128 := by
    show (∃ r, bytes.foldlM CheckedReader.scan (.outside 0 []) = .ok r) ↔ n ≤ 128
    rw [hscan, Nat.zero_add]
    by_cases hdeep : n > 128
    · rw [if_pos hdeep]
      exact iff_of_false (by simp) (by omega)
    · rw [if_neg hdeep]
      exact iff_of_true ⟨_, rfl⟩ (by omega)
  rw [Readable, hdepth, Utf8.run_eq_some_nil]
  rfl

/-- What passes the validation has a layout. -/
theorem laidOut_of_readable {serde : IgnoredAny} {bytes : List UInt8} {n : Nat}
    (h : Text n bytes) (hreadable : Readable bytes) (hvalid : serde.deserialize bytes = .ok ()) :
    ∃ layout, LaidOut serde bytes layout := by
  obtain ⟨laid, hlaid, -⟩ := Layout.foldlM_write h 0 []
  exact ⟨laid, hreadable, hvalid, _, hlaid⟩

/-- **JSON layout accepts what is documented**, however the file is read: UTF-8 that `serde_json`
accepts and that nests at most 128 levels. The reader's verdict does not depend on the chunks, and
what passes the validation is laid out. -/
theorem layout_accepts_documented_inputs {serde : IgnoredAny} (hserde : serde.Validates)
    {bytes : List UInt8} {env : LayoutEnv} (henv : env.Delivers bytes) (hready : env.Ready)
    (hroom : ∀ s layout, bytes.foldlM Layout.write (Layout.new, []) = .ok (s, layout) →
      env.Room layout.length) :
    ((∃ result, formatJson serde env = .ok result) ↔
      Utf8Text bytes ∧ serde.deserialize bytes = .ok () ∧ ∃ n, Text n bytes ∧ n ≤ 128) ∧
    (∀ chunks : List (List UInt8), (∀ chunk ∈ chunks, chunk ≠ []) → chunks.flatten = bytes →
      (CheckedReader.forBytes (fun _ _ => .ok ()) (chunks.map .bytes) .new () = .ok () ↔
        Utf8Text bytes ∧ ∃ r, bytes.foldlM CheckedReader.scan .new = .ok r)) ∧
    ∀ fetches, env.first = .ok fetches → validate serde fetches = .ok () →
      ∃ result, formatJson serde env = .ok result := by
  have hlays {n : Nat} (htext : Text n bytes) (hreadable : Readable bytes)
      (hvalid : serde.deserialize bytes = .ok ()) : ∃ result, formatJson serde env = .ok result := by
    obtain ⟨layout, hlaid⟩ := laidOut_of_readable htext hreadable hvalid
    obtain ⟨s, hwritten⟩ := hlaid.written
    exact ⟨_, formatJson_of_laidOut henv hready (hroom s layout hwritten) hlaid⟩
  refine ⟨⟨?_, ?_⟩, ?_, ?_⟩
  · rintro ⟨⟨layout, size⟩, hresult⟩
    obtain ⟨hlaid, -⟩ := laidOut_of_formatJson henv hresult
    obtain ⟨n, htext⟩ := (hserde bytes).mp hlaid.valid
    obtain ⟨hutf8, hdepth⟩ := (readable_iff htext).mp hlaid.readable
    exact ⟨hutf8, hlaid.valid, n, htext, hdepth⟩
  · rintro ⟨hutf8, hvalid, n, htext, hdepth⟩
    exact hlays htext ((readable_iff htext).mpr ⟨hutf8, hdepth⟩) hvalid
  · rintro chunks hchunks rfl
    have hpass : chunks.flatten.foldlM (fun (_ : Unit) _ => (.ok () : Except Failure Unit)) () =
        .ok () := by
      induction chunks.flatten with
      | nil => rfl
      | cons byte rest ih => exact ih
    rw [CheckedReader.forBytes_eq_ok hchunks rfl, Utf8.run_eq_some_nil]
    exact ⟨fun h => ⟨h.1, h.2.1⟩, fun h => ⟨h.1, h.2, hpass⟩⟩
  · intro fetches hfirst hvalidate
    obtain ⟨fetches', hfirst', hreads⟩ := henv.first.forBytes
    obtain rfl := Except.ok.inj (hfirst.symm.trans hfirst')
    obtain ⟨state, hnext, hfinish⟩ := Except.bind_eq_ok.mp hvalidate
    obtain ⟨hreadable, hnext⟩ := hreads.mp hnext
    have hvalid : serde.deserialize bytes = .ok () :=
      Except.bind_eq_ok.mpr ⟨state, foldlM_mapError.mp hnext, mapError_eq_ok.mp hfinish⟩
    obtain ⟨n, htext⟩ := (hserde bytes).mp hvalid
    exact hlays htext hreadable hvalid

/-- A validator that takes all bytes and then asks the grammar. -/
noncomputable def IgnoredAny.grammar : IgnoredAny where
  State := List UInt8
  start := []
  next s byte := .ok (s ++ [byte])
  finish s :=
    open Classical in if ∃ n, Text n s then .ok () else .error "expected value"

theorem IgnoredAny.grammar_validates : IgnoredAny.grammar.Validates := by
  intro bytes
  have htakes (taken : List UInt8) :
      bytes.foldlM IgnoredAny.grammar.next taken = .ok (taken ++ bytes) := by
    induction bytes generalizing taken with
    | nil => exact congrArg Except.ok (List.append_nil taken).symm
    | cons byte bytes ih =>
        show bytes.foldlM IgnoredAny.grammar.next (taken ++ [byte]) = _
        rw [ih, List.append_assoc]
        rfl
  show (bytes.foldlM IgnoredAny.grammar.next [] >>= IgnoredAny.grammar.finish) = .ok () ↔ _
  rw [htakes]
  by_cases h : ∃ n, Text n bytes
  · exact iff_of_true (if_pos h) h
  · refine iff_of_false ?_ h
    show IgnoredAny.grammar.finish bytes ≠ .ok ()
    rw [show IgnoredAny.grammar.finish bytes = .error "expected value" from if_neg h]
    simp

/-- `{"é":[]}` -/
def sampleJson : List UInt8 := [0x7B, 0x22, 0xC3, 0xA9, 0x22, 0x3A, 0x5B, 0x5D, 0x7D]

/-- Reads that split the `é`, in the first pass. -/
def sampleEnv : LayoutEnv where
  first := .ok [.bytes [0x7B, 0x22, 0xC3], .bytes [0xA9, 0x22, 0x3A, 0x5B, 0x5D, 0x7D]]
  second := .ok [.bytes sampleJson]
  tempfile := .ok ()
  limit := 1000
  used _ := 9
  cancelled _ := false
  ioError _ := none

theorem sampleEnv_delivers : sampleEnv.Delivers sampleJson where
  first := ⟨[[0x7B, 0x22, 0xC3], [0xA9, 0x22, 0x3A, 0x5B, 0x5D, 0x7D]], rfl, by decide, rfl⟩
  second := ⟨[sampleJson], rfl, by decide, rfl⟩
  tempfile := rfl

theorem sampleEnv_ready : sampleEnv.Ready := ⟨fun _ => rfl, fun _ => rfl⟩

theorem sampleJson_text : Text 2 sampleJson := by
  have hws : Ws [] := fun _ h => absurd h List.not_mem_nil
  have hkey : Quoted [0x22, 0xC3, 0xA9, 0x22] :=
    ⟨[0xC3, 0xA9], rfl, .unescaped rfl (.unescaped rfl .nil)⟩
  have hvalue : Text 1 [0x5B, 0x5D] := .element hws (.empty .array hws) hws
  exact .element hws (.group (.one (.member hws hkey hws hvalue))) hws

/-- A body is laid out though one of its characters is read in two parts. -/
theorem split_character_is_accepted :
    ∃ result, formatJson IgnoredAny.grammar sampleEnv = .ok result := by
  have hroom (s : Layout) (layout : List UInt8)
      (h : sampleJson.foldlM Layout.write (Layout.new, []) = .ok (s, layout)) :
      sampleEnv.Room layout.length := by
    have hlength : (sampleJson.foldlM Layout.write (Layout.new, [])).toOption.map
        (fun t => t.2.length) = some 22 := by
      decide +kernel
    rw [h] at hlength
    have hlength : layout.length = 22 := Option.some.inj hlength
    intro n
    show 9 + layout.length ≤ 1000
    omega
  refine (layout_accepts_documented_inputs IgnoredAny.grammar_validates sampleEnv_delivers
    sampleEnv_ready hroom).1.mpr ⟨⟨['{', '"', 'é', '"', ':', '[', ']', '\x7d'], ?_⟩, ?_, 2,
      sampleJson_text, by decide⟩
  · decide +kernel
  · exact (IgnoredAny.grammar_validates _).mpr ⟨2, sampleJson_text⟩

end SippinSoda
