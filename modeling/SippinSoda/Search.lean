import SippinSoda.Lib.Kmp
import Mathlib.Data.List.Sort
import Mathlib.Order.Bounds.Basic

/-!
# Full-body search (`proxy/bodies/inspect.rs`)

`BodyStore::search` scans at most `SCAN_BYTES` of a recorded body per call; the client
calls it again from `next_offset` until a step reports `found` or `done`. Here a body is
the bytes of its file and a reader is the part of the file not read yet.

Results are `Option (Except String _)`: `none` is an index or a subtraction out of range
(a panic of the source), `.error` an error the source returns.
-/

namespace SippinSoda

/-- `PAGE_SIZE`. -/
def pageSize : Nat := 64 * 1024

/-- `SCAN_BYTES`. -/
def scanBytes : Nat := 4 * 1024 * 1024

structure SearchStep where
  found : Option Nat
  nextOffset : Nat
  scannedTo : Nat
  done : Bool
  deriving DecidableEq, Repr

/-- Unsigned subtraction. -/
def checkedSub (a b : Nat) : Option Nat := if b ≤ a then some (a - b) else none

/-- `reader.read_exact(&mut buffer[..count])`: the buffer and the rest of the file, or
an early end of file. -/
def readExact (reader : List UInt8) (count : Nat) : Option (List UInt8 × List UInt8) :=
  if count ≤ reader.length then some (reader.take count, reader.drop count) else none

/-- The loop `while position < stop` of `scan`: a match, or `position` and `matched` at
the end of the step. Every turn reads at least one byte, so `stop - start` turns are
enough. `cancelled position` is what the closure returns in the turn at `position`. -/
def scanLoop (needle : List UInt8) (prefix_ : List Nat) (stop : Nat)
    (cancelled : Nat → Bool) :
    Nat → List UInt8 → Nat → Nat → Option (Except String (SearchStep ⊕ Nat × Nat))
  | turns, reader, position, matched =>
    if position < stop then
      match turns with
      | 0 => none
      | turns + 1 =>
        if cancelled position then
          some (.error "Search cancelled: body cleared or evicted.")
        else do
          let left ← checkedSub stop position
          let count := min pageSize left
          match readExact reader count with
          | none => some (.error "Cannot read search range.")
          | some (buffer, reader) =>
            match ← Kmp.feed needle prefix_ buffer matched with
            | .inl read => do
                let found ← checkedSub (position + read) needle.length
                some (.ok (.inl {
                  found := some found
                  nextOffset := found + 1
                  scannedTo := position + read
                  done := true }))
            | .inr matched =>
                scanLoop needle prefix_ stop cancelled turns reader (position + count) matched
    else some (.ok (.inr (position, matched)))

/-- `scan`. The source adds `SCAN_BYTES` with saturation, which `end` (a `u64`) never
lets show. -/
def scan (reader needle : List UInt8) (start end_ : Nat) (cancelled : Nat → Bool) :
    Option (Except String SearchStep) := do
  let prefix_ ← Kmp.table needle
  let stop := min end_ (start + scanBytes)
  match ← scanLoop needle prefix_ stop cancelled (stop - start) reader start 0 with
  | .error message => some (.error message)
  | .ok (.inl step) => some (.ok step)
  | .ok (.inr (position, matched)) => do
      let nextOffset ← if stop = end_ then some end_ else checkedSub position matched
      some (.ok { found := none, nextOffset, scannedTo := stop, done := stop == end_ })

/-- `BodyStore::search` on an entry that holds `file` and publishes `total`. -/
def search (file : List UInt8) (total : Nat) (needle : List UInt8) (start end_ : Nat)
    (cancelled : Nat → Bool) : Option (Except String SearchStep) :=
  if needle.length = 0 ∨ needle.length > 4096 then
    some (.error "Search requires 1–4096 UTF-8 bytes.")
  else if start > end_ ∨ end_ > total then
    some (.error "Invalid search range.")
  else scan (file.drop start) needle start end_ cancelled

/-- The client's loop (`ResponseBody.tsx`, `search`): step from the cursor until a step
reports a match or the end of the frozen range. -/
def searchFrom (body needle : List UInt8) (end_ : Nat) :
    Nat → Nat → Option (Except String (Option Nat))
  | 0, _ => none
  | turns + 1, cursor => do
      match ← scan (body.drop cursor) needle cursor end_ (fun _ => false) with
      | .error message => some (.error message)
      | .ok step =>
        match step.found with
        | some found => some (.ok (some found))
        | none =>
          if step.done then some (.ok none)
          else searchFrom body needle end_ turns step.nextOffset

/-- **Find next**, repeated: search again from one past each match. -/
def findAll (body needle : List UInt8) (end_ : Nat) :
    Nat → Nat → Option (Except String (List Nat))
  | 0, _ => none
  | turns + 1, cursor => do
      match ← searchFrom body needle end_ (end_ - cursor + 1) cursor with
      | .error message => some (.error message)
      | .ok none => some (.ok [])
      | .ok (some found) =>
        match ← findAll body needle end_ turns (found + 1) with
        | .error message => some (.error message)
        | .ok rest => some (.ok (found :: rest))

/-! ## What a search looks for -/

/-- The needle stands at `f` inside `body[start..end]`. -/
def MatchIn (body needle : List UInt8) (start end_ f : Nat) : Prop :=
  start ≤ f ∧ f + needle.length ≤ end_ ∧ Kmp.Occurs needle body f

instance (body needle : List UInt8) (start end_ f : Nat) :
    Decidable (MatchIn body needle start end_ f) :=
  inferInstanceAs (Decidable (_ ∧ _ ∧ _))

theorem MatchIn.mono {body needle : List UInt8} {start end_ end' f : Nat}
    (h : MatchIn body needle start end_ f) (hend : end_ ≤ end') :
    MatchIn body needle start end' f :=
  ⟨h.1, by have := h.2.1; omega, h.2.2⟩

/-- `body[start..stop]`. -/
def window (body : List UInt8) (start stop : Nat) : List UInt8 :=
  (body.drop start).take (stop - start)

theorem window_length {body : List UInt8} (start : Nat) {stop : Nat} (hstop : stop ≤ body.length) :
    (window body start stop).length = stop - start := by
  simp only [window, List.length_take, List.length_drop]
  omega

theorem window_append {body : List UInt8} {start : Nat} (position : Nat) {stop : Nat}
    (hsp : start ≤ position) (hps : position ≤ stop) :
    window body start position ++ window body position stop = window body start stop := by
  have hdrop : body.drop position = (body.drop start).drop (position - start) := by
    rw [List.drop_drop]
    congr 1
    omega
  unfold window
  rw [hdrop, ← List.take_add]
  congr 1
  omega

theorem window_take {body : List UInt8} {start stop n : Nat} (hn : n ≤ stop - start) :
    (window body start stop).take n = window body start (start + n) := by
  unfold window
  rw [List.take_take]
  congr 1
  omega

/-- A match that ends at `stop` is the needle ending the window up to `stop`. -/
theorem needle_suffix_window {body needle : List UInt8} {start stop : Nat}
    (hss : start ≤ stop) (hstop : stop ≤ body.length) :
    needle <:+ window body start stop ↔
      ∃ f, start ≤ f ∧ f + needle.length = stop ∧ Kmp.Occurs needle body f := by
  have hlen := window_length start hstop
  constructor
  · intro h
    have hle := h.length_le
    rw [hlen] at hle
    refine ⟨stop - needle.length, by omega, by omega, ?_⟩
    rw [← window_append (stop - needle.length) (by omega) (by omega)] at h
    have hsame : needle = window body (stop - needle.length) stop :=
      (List.suffix_of_suffix_length_le h (List.suffix_append _ _)
        (by rw [window_length _ hstop]; omega)).eq_of_length (by rw [window_length _ hstop]; omega)
    have hpre : window body (stop - needle.length) stop <+: body.drop (stop - needle.length) :=
      List.take_prefix _ _
    rwa [← hsame] at hpre
  · rintro ⟨f, hsf, hf, hocc⟩
    have hsame : needle = window body f stop := by
      obtain ⟨tail, htail⟩ := hocc
      unfold window
      rw [← htail, List.take_left' (by omega)]
    rw [← window_append _ hsf (show f ≤ stop by omega), ← hsame]
    exact List.suffix_append _ _

/-! ## One step -/

/-- What holds of a step of `scan` over `body[start..stop]`: the first match of the
window, or the state of the automaton at its end and no match in it. -/
def LoopResult (body needle : List UInt8) (start stop : Nat) :
    SearchStep ⊕ Nat × Nat → Prop
  | .inl step => ∃ f, step = ⟨some f, f + 1, f + needle.length, true⟩ ∧
      MatchIn body needle start stop f ∧ ∀ g, MatchIn body needle start stop g → f ≤ g
  | .inr (position, matched) => position = stop ∧
      Kmp.Longest needle (window body start stop) matched ∧
      ∀ g, ¬ MatchIn body needle start stop g

/-- The loop from any buffer boundary. The invariant: the automaton is in the state of
the bytes read since `start`, and no match ends in them. -/
theorem scanLoop_spec {body needle : List UInt8} {prefix_ : List Nat} {start stop : Nat}
    (ht : Kmp.TableOk needle prefix_ needle.length) (hstop : stop ≤ body.length) :
    ∀ (turns position matched : Nat), start ≤ position → position ≤ stop →
      stop - position ≤ turns → Kmp.Longest needle (window body start position) matched →
      (∀ g, ¬ MatchIn body needle start position g) →
      ∃ r, scanLoop needle prefix_ stop (fun _ => false) turns (body.drop position)
          position matched = some (.ok r) ∧ LoopResult body needle start stop r := by
  intro turns
  induction turns with
  | zero =>
      intro position matched _ hps hturns hl hnone
      obtain rfl : position = stop := by omega
      exact ⟨.inr (position, matched), by simp [scanLoop], rfl, hl, hnone⟩
  | succ turns ih =>
      intro position matched hsp hps hturns hl hnone
      by_cases hlt : position < stop
      · -- one buffer: `count` bytes, all of them inside the file
        have hpage : 0 < pageSize := by decide
        obtain ⟨count, hcount⟩ : ∃ count, count = min pageSize (stop - position) := ⟨_, rfl⟩
        have hpos : 0 < count := by omega
        have hread : readExact (body.drop position) count
            = some (window body position (position + count), body.drop (position + count)) := by
          have hlen : count ≤ (body.drop position).length := by
            rw [List.length_drop]
            omega
          have htake : position + count - position = count := by omega
          simp only [readExact, if_pos hlen, window, htake, List.drop_drop]
        obtain ⟨r, hfeed, hspec⟩ :=
          Kmp.feed_spec ht (window body position (position + count)) _ _ hl
        have hblock : (window body position (position + count)).length = count := by
          rw [window_length _ (by omega)]
          omega
        -- the text read after `n` bytes of the buffer
        have htext : ∀ n, n ≤ count → window body start position ++
            (window body position (position + count)).take n
              = window body start (position + n) := by
          intro n hn
          rw [window_take (by omega), window_append _ hsp (by omega)]
        cases r with
        | inl read =>
            simp only [hblock] at hspec
            obtain ⟨hread0, hreadle, hsuf, hbefore⟩ := hspec
            rw [htext read hreadle, needle_suffix_window (by omega) (by omega)] at hsuf
            obtain ⟨f, hsf, hf, hocc⟩ := hsuf
            refine ⟨.inl ⟨some f, f + 1, f + needle.length, true⟩, ?_, f, rfl,
              ⟨hsf, by omega, hocc⟩, ?_⟩
            · have hsub : checkedSub (position + read) needle.length = some f := by
                rw [checkedSub, if_pos (by omega)]
                congr 1
                omega
              have hleft : checkedSub stop position = some (stop - position) :=
                if_pos (by omega)
              simp [scanLoop, hlt, hleft, ← hcount, hread, hfeed, hsub, hf]
            · intro g hg
              by_contra hgf
              obtain ⟨hsg, _, hgocc⟩ := hg
              by_cases hold : g + needle.length ≤ position
              · exact hnone g ⟨hsg, hold, hgocc⟩
              · obtain ⟨k, hk⟩ : ∃ k, g + needle.length = position + k :=
                  ⟨g + needle.length - position, by omega⟩
                refine hbefore k (by omega) (by omega) ?_
                rw [htext k (by omega), needle_suffix_window (by omega) (by omega)]
                exact ⟨g, hsg, by omega, hgocc⟩
        | inr matched' =>
            simp only [hblock] at hspec
            obtain ⟨hlast, hbefore⟩ := hspec
            have hall := htext count (Nat.le_refl count)
            rw [List.take_of_length_le (by omega)] at hall
            rw [hall] at hlast
            have hnone' : ∀ g, ¬ MatchIn body needle start (position + count) g := by
              rintro g ⟨hsg, hg, hgocc⟩
              by_cases hold : g + needle.length ≤ position
              · exact hnone g ⟨hsg, hold, hgocc⟩
              · obtain ⟨k, hk⟩ : ∃ k, g + needle.length = position + k :=
                  ⟨g + needle.length - position, by omega⟩
                refine hbefore k (by omega) (by omega) ?_
                rw [htext k (by omega), needle_suffix_window (by omega) (by omega)]
                exact ⟨g, hsg, by omega, hgocc⟩
            obtain ⟨r, hr, hres⟩ := ih (position + count) matched' (by omega) (by omega)
              (by omega) hlast hnone'
            refine ⟨r, ?_, hres⟩
            have hleft : checkedSub stop position = some (stop - position) := if_pos (by omega)
            rw [scanLoop]
            simp [hlt, hleft, ← hcount, hread, hfeed, hr]
      · obtain rfl : position = stop := by omega
        exact ⟨.inr (position, matched), by simp [scanLoop], rfl, hl, hnone⟩

/-- What one step of `scan` reports about `body[cursor..end]`. -/
structure StepOk (body needle : List UInt8) (cursor end_ : Nat) (step : SearchStep) :
    Prop where
  found : ∀ f, step.found = some f → IsLeast { g | MatchIn body needle cursor end_ g } f
  missed : step.found = none → step.done = true → ∀ g, ¬ MatchIn body needle cursor end_ g
  advances : step.found = none → step.done = false →
    cursor < step.nextOffset ∧ step.nextOffset ≤ end_
  resumes : step.found = none → step.done = false →
    ∀ g, MatchIn body needle cursor end_ g ↔ MatchIn body needle step.nextOffset end_ g

theorem scan_spec {body needle : List UInt8} {cursor end_ : Nat}
    (hne : 0 < needle.length) (hmax : needle.length ≤ 4096) (hce : cursor ≤ end_)
    (hend : end_ ≤ body.length) :
    ∃ step, scan (body.drop cursor) needle cursor end_ (fun _ => false) = some (.ok step) ∧
      StepOk body needle cursor end_ step := by
  obtain ⟨prefix_, htable, ht⟩ := Kmp.table_spec (List.ne_nil_of_length_pos hne)
  obtain ⟨stop, hstop⟩ : ∃ stop, stop = min end_ (cursor + scanBytes) := ⟨_, rfl⟩
  have hscan : 4096 < scanBytes := by decide
  have hempty : window body cursor cursor = [] := by simp [window]
  have hnil : Kmp.Longest needle (window body cursor cursor) 0 := by
    rw [hempty]
    exact Kmp.Longest.nil (List.ne_nil_of_length_pos hne)
  obtain ⟨r, hloop, hres⟩ := scanLoop_spec ht (by omega : stop ≤ body.length)
    (stop - cursor) cursor 0 (Nat.le_refl _) (by omega) (Nat.le_refl _) hnil
    (by rintro g ⟨h1, h2, _⟩; omega)
  cases r with
  | inl step =>
      obtain ⟨f, rfl, hf, hleast⟩ := hres
      refine ⟨⟨some f, f + 1, f + needle.length, true⟩,
        by simp [scan, htable, ← hstop, hloop], ?_, ?_, ?_, ?_⟩
      · intro g hg
        injection hg with hg
        subst hg
        refine ⟨hf.mono (by omega), fun g hg => ?_⟩
        -- a match beyond this step's window starts after the one found in it
        by_cases hin : g + needle.length ≤ stop
        · exact hleast g ⟨hg.1, hin, hg.2.2⟩
        · have := hf.2.1
          omega
      all_goals simp
  | inr state =>
      obtain ⟨position, matched⟩ := state
      obtain ⟨rfl, hlong, hnone⟩ := hres
      by_cases hlast : position = end_
      · subst hlast
        refine ⟨⟨none, position, position, true⟩,
          by simp [scan, htable, ← hstop, hloop], by simp, fun _ _ => hnone, by simp, by simp⟩
      · have hm := hlong.lt
        have hsub : checkedSub position matched = some (position - matched) :=
          if_pos (by omega)
        refine ⟨⟨none, position - matched, position, false⟩, ?_, by simp, by simp, ?_, ?_⟩
        · simp [scan, htable, ← hstop, hloop, hlast, hsub]
        · intro _ _
          show cursor < position - matched ∧ position - matched ≤ end_
          omega
        · -- nothing is lost: a match not in the window starts inside the partial match
          intro _ _ g
          show MatchIn body needle cursor end_ g ↔
            MatchIn body needle (position - matched) end_ g
          constructor
          · rintro ⟨hcg, hg, hocc⟩
            refine ⟨?_, hg, hocc⟩
            by_contra hbefore
            have hout : ¬ g + needle.length ≤ position := fun h => hnone g ⟨hcg, h, hocc⟩
            obtain ⟨i, rfl⟩ : ∃ i, g = cursor + i := ⟨g - cursor, by omega⟩
            have hocc' : Kmp.Occurs needle
                (window body cursor position ++ body.drop position) i := by
              have hsplit : window body cursor position ++ body.drop position
                  = body.drop cursor := by
                have hdrop : body.drop position
                    = (body.drop cursor).drop (position - cursor) := by
                  rw [List.drop_drop]
                  congr 1
                  omega
                rw [window, hdrop, List.take_append_drop]
              unfold Kmp.Occurs
              rw [hsplit, List.drop_drop]
              exact hocc
            have hw := window_length cursor (by omega : position ≤ body.length)
            have := hlong.resume hocc' (by omega)
            omega
          · rintro ⟨hcg, hg, hocc⟩
            exact ⟨by omega, hg, hocc⟩

/-! ## The whole search -/

/-- The client's loop ends, and returns the first match of the range, if there is one. -/
theorem searchFrom_spec {body needle : List UInt8} {end_ : Nat}
    (hne : 0 < needle.length) (hmax : needle.length ≤ 4096) (hend : end_ ≤ body.length) :
    ∀ (turns cursor : Nat), cursor ≤ end_ → end_ - cursor < turns →
      ∃ r, searchFrom body needle end_ turns cursor = some (.ok r) ∧
        (∀ f, r = some f ↔ IsLeast { g | MatchIn body needle cursor end_ g } f) ∧
        (r = none ↔ ∀ f, ¬ MatchIn body needle cursor end_ f) := by
  intro turns
  induction turns with
  | zero => intro cursor _ h; omega
  | succ turns ih =>
      intro cursor hce hturns
      obtain ⟨step, hscan, hok⟩ := scan_spec hne hmax hce hend
      cases hfound : step.found with
      | some found =>
          have hleast := hok.found found hfound
          refine ⟨some found, by simp [searchFrom, hscan, hfound], ?_, ?_⟩
          · intro f
            constructor
            · rintro ⟨⟩
              exact hleast
            · exact fun h => congrArg some (hleast.unique h)
          · exact ⟨by simp, fun h => absurd hleast.1 (h found)⟩
      | none =>
          cases hdone : step.done with
          | true =>
              have hnone := hok.missed hfound hdone
              refine ⟨none, by simp [searchFrom, hscan, hfound, hdone], ?_, by simpa using hnone⟩
              intro f
              exact ⟨by simp, fun h => absurd h.1 (hnone f)⟩
          | false =>
              obtain ⟨hlt, hle⟩ := hok.advances hfound hdone
              obtain ⟨r, hr, hsome, hnone⟩ := ih step.nextOffset hle (by omega)
              have hsame : { g | MatchIn body needle step.nextOffset end_ g }
                  = { g | MatchIn body needle cursor end_ g } :=
                Set.ext fun g => (hok.resumes hfound hdone g).symm
              refine ⟨r, by simp [searchFrom, hscan, hfound, hdone, hr], ?_, ?_⟩
              · rw [← hsame]
                exact hsome
              · rw [hnone]
                exact forall_congr' fun g => not_congr (hok.resumes hfound hdone g).symm

/-- The offsets at which the needle stands inside `body[start..end]`, in order. -/
def matchesIn (body needle : List UInt8) (start end_ : Nat) : List Nat :=
  (List.range' start (end_ + 1 - start)).filter fun f => MatchIn body needle start end_ f

theorem mem_matchesIn {body needle : List UInt8} {start end_ f : Nat} :
    f ∈ matchesIn body needle start end_ ↔ MatchIn body needle start end_ f := by
  simp only [matchesIn, List.mem_filter, List.mem_range'_1, decide_eq_true_eq]
  constructor
  · exact fun h => h.2
  · intro h
    exact ⟨⟨h.1, by have := h.2.1; have := h.1; omega⟩, h⟩

theorem matchesIn_pairwise {body needle : List UInt8} {start end_ : Nat} :
    (matchesIn body needle start end_).Pairwise (· < ·) :=
  List.Pairwise.filter _ (List.pairwise_lt_range' 1)

/-- The matches of a range are its first one and the matches after it. -/
theorem matchesIn_of_isLeast {body needle : List UInt8} {start end_ f : Nat}
    (hf : IsLeast { g | MatchIn body needle start end_ g } f) :
    matchesIn body needle start end_ = f :: matchesIn body needle (f + 1) end_ := by
  have hpair : (f :: matchesIn body needle (f + 1) end_).Pairwise (· < ·) := by
    refine List.pairwise_cons.mpr ⟨fun g hg => ?_, matchesIn_pairwise⟩
    exact (mem_matchesIn.mp hg).1
  refine List.SortedLT.eq_of_mem_iff matchesIn_pairwise.sortedLT hpair.sortedLT fun g => ?_
  rw [List.mem_cons, mem_matchesIn, mem_matchesIn]
  constructor
  · intro hg
    have hfg := hf.2 hg
    by_cases heq : g = f
    · exact .inl heq
    · exact .inr ⟨by omega, hg.2⟩
  · rintro (rfl | hg)
    · exact hf.1
    · exact ⟨by have := hg.1; have := hf.1.1; omega, hg.2⟩

theorem matchesIn_eq_nil {body needle : List UInt8} {start end_ : Nat}
    (h : ∀ f, ¬ MatchIn body needle start end_ f) : matchesIn body needle start end_ = [] :=
  List.eq_nil_iff_forall_not_mem.mpr fun f hf => h f (mem_matchesIn.mp hf)

/-- Repeating the search from one past each match lists the matches of the range. -/
theorem findAll_spec {body needle : List UInt8} {end_ : Nat}
    (hne : 0 < needle.length) (hmax : needle.length ≤ 4096) (hend : end_ ≤ body.length) :
    ∀ (turns cursor : Nat), cursor ≤ end_ → end_ - cursor < turns →
      findAll body needle end_ turns cursor
        = some (.ok (matchesIn body needle cursor end_)) := by
  intro turns
  induction turns with
  | zero => intro cursor _ h; omega
  | succ turns ih =>
      intro cursor hce hturns
      obtain ⟨r, hr, hsome, hnone⟩ :=
        searchFrom_spec hne hmax hend (end_ - cursor + 1) cursor hce (by omega)
      cases r with
      | none => simp [findAll, hr, matchesIn_eq_nil (hnone.mp rfl)]
      | some found =>
          have hleast := (hsome found).mp rfl
          have hin : MatchIn body needle cursor end_ found := hleast.1
          obtain ⟨hstart, hin_end, _⟩ := hin
          have hrest := ih (found + 1) (by omega) (by omega)
          simp [findAll, hr, hrest, matchesIn_of_isLeast hleast]

/-- **Stepped search is whole-body search.** From every offset of the range one step
stays inside its indices and either settles the search or moves the cursor up; the
client's loop returns the first match of the range and reports none exactly when there
is none; repeating it from one past each match lists every match, once and in order. -/
theorem stepped_search_is_whole_search (body needle : List UInt8) (start end_ : Nat)
    (hne : 0 < needle.length) (hmax : needle.length ≤ 4096) (hse : start ≤ end_)
    (hend : end_ ≤ body.length) :
    (∀ cursor, start ≤ cursor → cursor ≤ end_ → ∃ step,
      scan (body.drop cursor) needle cursor end_ (fun _ => false) = some (.ok step) ∧
        (step.found = none → step.done = false →
          cursor < step.nextOffset ∧ step.nextOffset ≤ end_)) ∧
    (∀ turns, end_ - start < turns → ∃ r,
      searchFrom body needle end_ turns start = some (.ok r) ∧
        (∀ f, r = some f ↔ IsLeast { g | MatchIn body needle start end_ g } f) ∧
        (r = none ↔ ∀ f, ¬ MatchIn body needle start end_ f)) ∧
    (∀ turns, end_ - start < turns → ∃ found,
      findAll body needle end_ turns start = some (.ok found) ∧
        found.Pairwise (· < ·) ∧ ∀ f, f ∈ found ↔ MatchIn body needle start end_ f) := by
  refine ⟨fun cursor _ hce => ?_, fun turns hturns => ?_, fun turns hturns => ?_⟩
  · obtain ⟨step, hscan, hok⟩ := scan_spec hne hmax hce hend
    exact ⟨step, hscan, hok.advances⟩
  · exact searchFrom_spec hne hmax hend turns start hse hturns
  · exact ⟨_, findAll_spec hne hmax hend turns start hse hturns, matchesIn_pairwise,
      fun _ => mem_matchesIn⟩

/-- Overlapping matches: `ababa` in `abababa`. -/
theorem stepped_search_overlapping :
    ∃ found, findAll [97, 98, 97, 98, 97, 98, 97] [97, 98, 97, 98, 97] 7 8 0
        = some (.ok found) ∧ 0 ∈ found ∧ 2 ∈ found ∧ 1 ∉ found := by
  obtain ⟨_, _, hall⟩ := stepped_search_is_whole_search [97, 98, 97, 98, 97, 98, 97]
    [97, 98, 97, 98, 97] 0 7 (by decide) (by decide) (by decide) (by decide)
  obtain ⟨found, hfound, _, hmem⟩ := hall 8 (by decide)
  refine ⟨found, hfound, ?_⟩
  rw [hmem, hmem, hmem]
  decide

end SippinSoda
