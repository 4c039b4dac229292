import Mathlib.Data.List.Basic

/-!
# Linear text search with a failure table

The Knuth–Morris–Pratt automaton over an arbitrary alphabet, written the way an
imperative scanner runs it: a table built in place, a `while` loop that falls back
along it, and every index access checked (`none` is an access out of range).

* **specification** — `Longest needle text m`: `m` symbols of the needle, and no more,
  are a suffix of the text read so far;
* **automaton** — `fallback`, `advance`, `table`; `advance_spec` says one symbol keeps
  `Longest`, `table_spec` that building the table never leaves its range;
* **scanning** — `feed` reads a block until the needle is complete; `feed_spec` says
  where it stops and what is known when it does not;
* **occurrences** — `Occurs`, and the window argument that lets a scan be resumed from
  the start of its partial match (`Longest.resume`).
-/

namespace Kmp

variable {α : Type} [DecidableEq α]

/-! ## Occurrences and partial matches -/

omit [DecidableEq α] in
/-- The needle stands in `text` at offset `at_`. -/
def Occurs (needle text : List α) (at_ : Nat) : Prop :=
  needle <+: text.drop at_

instance (needle text : List α) (at_ : Nat) : Decidable (Occurs needle text at_) :=
  inferInstanceAs (Decidable (needle <+: text.drop at_))

/-- `m` is the largest `k` below the needle's length such that the first `k` symbols of
the needle end `text`. -/
structure Longest (needle text : List α) (m : Nat) : Prop where
  lt : m < needle.length
  suffix : needle.take m <:+ text
  max : ∀ k, k < needle.length → needle.take k <:+ text → k ≤ m

omit [DecidableEq α] in
theorem take_succ_of_getElem? {needle : List α} {m : Nat} {c : α}
    (h : needle[m]? = some c) : needle.take (m + 1) = needle.take m ++ [c] := by
  rw [List.take_add_one, h]
  rfl

omit [DecidableEq α] in
/-- A nonempty prefix of the needle ends `text ++ [c]` iff the prefix one shorter ends
`text` and `c` is the symbol between them. -/
theorem take_succ_suffix_snoc {needle text : List α} {m : Nat} {c : α}
    (hm : m < needle.length) :
    needle.take (m + 1) <:+ text ++ [c] ↔
      needle.take m <:+ text ∧ needle[m]? = some c := by
  have hget : needle[m]? = some needle[m] := List.getElem?_eq_getElem hm
  rw [take_succ_of_getElem? hget, hget]
  constructor
  · rintro ⟨pre, hpre⟩
    rw [← List.append_assoc] at hpre
    have hinj := List.append_inj' hpre rfl
    exact ⟨⟨pre, hinj.1⟩, by simpa using hinj.2⟩
  · rintro ⟨⟨pre, rfl⟩, hc⟩
    injection hc with hc
    exact ⟨pre, by rw [hc, List.append_assoc]⟩

omit [DecidableEq α] in
/-- Two prefixes of the needle that end the same text: the shorter ends the longer. -/
theorem take_suffix_take {needle text : List α} {j k : Nat} (hjk : j ≤ k)
    (hj : needle.take j <:+ text) (hk : needle.take k <:+ text) :
    needle.take j <:+ needle.take k :=
  List.suffix_of_suffix_length_le hj hk (by simp only [List.length_take]; omega)

omit [DecidableEq α] in
/-- A prefix of the needle that ends a text is no longer than the text. -/
theorem le_length_of_take_suffix {needle text : List α} {k : Nat}
    (hk : k < needle.length) (h : needle.take k <:+ text) : k ≤ text.length := by
  have hlen := h.length_le
  rw [List.length_take] at hlen
  omega

omit [DecidableEq α] in
theorem Longest.nil {needle : List α} (hne : needle ≠ []) : Longest needle [] 0 where
  lt := List.length_pos_of_ne_nil hne
  suffix := by simp
  max := fun k hk h => by simpa using le_length_of_take_suffix hk h

omit [DecidableEq α] in
/-- **Resuming.** No occurrence that starts before the partial match survives: an
occurrence inside `text ++ rest` that ends beyond `text` starts at or after the point
where the partial match starts. -/
theorem Longest.resume {needle text rest : List α} {m at_ : Nat}
    (hl : Longest needle text m) (hocc : Occurs needle (text ++ rest) at_)
    (hend : text.length < at_ + needle.length) : text.length ≤ at_ + m := by
  by_cases hin : text.length ≤ at_
  · omega
  -- the part of the occurrence inside `text` is a prefix of the needle ending `text`
  have hlt : text.length - at_ < needle.length := by omega
  have hdrop : (text ++ rest).drop at_ = text.drop at_ ++ rest := by
    rw [List.drop_append_of_le_length (by omega)]
  have hpre : needle.take (text.length - at_) = text.drop at_ := by
    unfold Occurs at hocc
    rw [hdrop] at hocc
    have hshort : (text.drop at_).length = text.length - at_ := List.length_drop
    obtain ⟨tail, htail⟩ := hocc
    have htake := congrArg (List.take (text.length - at_)) htail
    rwa [List.take_append_of_le_length (by omega), List.take_left' hshort] at htake
  have := hl.max (text.length - at_) hlt (hpre ▸ List.drop_suffix at_ text)
  omega

/-! ## The automaton -/

/-- `while matched > 0 && c != needle[matched] { matched = table[matched - 1] }`. The
first argument bounds the number of turns; every turn lowers `matched`, so `matched`
itself is enough. -/
def fallback (needle : List α) (table : List Nat) (c : α) : Nat → Nat → Option Nat
  | _, 0 => some 0
  | 0, _ + 1 => none
  | turns + 1, m + 1 => do
      let x ← needle[m + 1]?
      if c = x then
        some (m + 1)
      else do
        let back ← table[m]?
        fallback needle table c turns back

/-- Fall back, then `if c == needle[matched] { matched += 1 }`. -/
def advance (needle : List α) (table : List Nat) (matched : Nat) (c : α) : Option Nat := do
  let m ← fallback needle table c matched matched
  let x ← needle[m]?
  some (if c = x then m + 1 else m)

/-- The entries of a table that `fallback` may look up from a partial match of at most
`n` symbols: entry `i` is the longest proper border of the needle's first `i + 1`. -/
def TableOk (needle : List α) (table : List Nat) (n : Nat) : Prop :=
  ∀ i, i < n → ∃ v, table[i]? = some v ∧ Longest needle ((needle.drop 1).take i) v

omit [DecidableEq α] in
/-- A border of the needle's first `m + 1` symbols, read as a partial match inside
`needle[1..=m]`. -/
theorem take_suffix_shift {needle : List α} {j m : Nat} (hjm : j ≤ m)
    (hm : m < needle.length) :
    needle.take j <:+ needle.take (m + 1) ↔ needle.take j <:+ (needle.drop 1).take m := by
  cases needle with
  | nil => simp at hm
  | cons a rest =>
      simp only [List.take_succ_cons, List.drop_succ_cons, List.drop_zero]
      constructor
      · intro h
        refine List.suffix_of_suffix_length_le h (List.suffix_cons a _) ?_
        simp only [List.length_take, List.length_cons] at hm ⊢
        omega
      · exact fun h => h.trans (List.suffix_cons a _)

/-- What `fallback` returns: a partial match of `text` that `c` extends (or zero), and
the longest such. -/
structure Extends (needle text : List α) (c : α) (m : Nat) : Prop where
  lt : m < needle.length
  suffix : needle.take m <:+ text
  stops : m = 0 ∨ needle[m]? = some c
  max : ∀ k, k < needle.length → needle.take k <:+ text → needle[k]? = some c → k ≤ m

/-- The fallback loop ends, stays in range, and finds the longest extensible match. The
induction is on the turns; the invariant is that every extensible match is at most the
current one. -/
theorem fallback_spec {needle text : List α} {table : List Nat} {c : α} {n : Nat}
    (ht : TableOk needle table n) :
    ∀ (turns m : Nat), m ≤ turns → m ≤ n → m < needle.length → needle.take m <:+ text →
      (∀ k, k < needle.length → needle.take k <:+ text → needle[k]? = some c → k ≤ m) →
      ∃ r, fallback needle table c turns m = some r ∧ Extends needle text c r := by
  intro turns
  induction turns with
  | zero =>
      intro m hturns _ hlt hsuf hmax
      obtain rfl : m = 0 := by omega
      exact ⟨0, rfl, hlt, hsuf, .inl rfl, hmax⟩
  | succ turns ih =>
      intro m hturns hn hlt hsuf hmax
      cases m with
      | zero => exact ⟨0, rfl, hlt, hsuf, .inl rfl, hmax⟩
      | succ m =>
          have hget : needle[m + 1]? = some needle[m + 1] := List.getElem?_eq_getElem hlt
          by_cases hc : c = needle[m + 1]
          · refine ⟨m + 1, ?_, hlt, hsuf, .inr (by rw [hget, hc]), hmax⟩
            simp [fallback, hget, hc]
          · obtain ⟨v, hv, hlong⟩ := ht m (by omega)
            have hvm : v ≤ m := by
              have := le_length_of_take_suffix hlong.lt hlong.suffix
              rw [List.length_take] at this
              omega
            have hborder : needle.take v <:+ needle.take (m + 1) :=
              (take_suffix_shift hvm (by omega)).mpr hlong.suffix
            -- an extensible match is not the current one, so it is one of its borders
            have hmax' : ∀ k, k < needle.length → needle.take k <:+ text →
                needle[k]? = some c → k ≤ v := by
              intro k hk hks hkc
              have hle := hmax k hk hks hkc
              have hne : k ≠ m + 1 := by
                rintro rfl
                rw [hget] at hkc
                exact hc (Option.some.inj hkc).symm
              have hkm : k ≤ m := by omega
              exact hlong.max k hk
                ((take_suffix_shift hkm (by omega)).mp (take_suffix_take hle hks hsuf))
            obtain ⟨r, hr, hext⟩ :=
              ih v (by omega) (by omega) hlong.lt (hborder.trans hsuf) hmax'
            exact ⟨r, by simp [fallback, hget, hc, hv, hr], hext⟩

/-- One symbol: the automaton's state stays the longest partial match, or the needle is
complete. -/
theorem advance_spec {needle text : List α} {table : List Nat} {c : α} {m n : Nat}
    (ht : TableOk needle table n) (hmn : m ≤ n) (hl : Longest needle text m) :
    ∃ r, advance needle table m c = some r ∧
      (r < needle.length → Longest needle (text ++ [c]) r) ∧
      (r = needle.length ↔ needle <:+ text ++ [c]) ∧ r ≤ needle.length := by
  obtain ⟨b, hb, hext⟩ := fallback_spec (c := c) ht m m (Nat.le_refl m) hmn hl.lt hl.suffix
    (fun k hk hks _ => hl.max k hk hks)
  have hblt : b < needle.length := hext.lt
  have hget : needle[b]? = some needle[b] := List.getElem?_eq_getElem hblt
  -- every match of the extended text is a symbol longer than an extensible one
  have hmax : ∀ k, k ≤ needle.length → needle.take k <:+ text ++ [c] →
      k ≤ if c = needle[b] then b + 1 else b := by
    intro k hk hks
    cases k with
    | zero => exact Nat.zero_le _
    | succ k =>
        obtain ⟨hks', hkc⟩ := (take_succ_suffix_snoc hk).mp hks
        have hkb := hext.max k hk hks' hkc
        split
        · omega
        · next hne =>
          rcases hext.stops with h0 | h0
          · obtain rfl : k = b := by omega
            rw [hget] at hkc
            exact absurd (Option.some.inj hkc).symm hne
          · rw [hget] at h0
            exact absurd (Option.some.inj h0).symm hne
  have hsuf : needle.take (if c = needle[b] then b + 1 else b) <:+ text ++ [c] := by
    split
    · next hc =>
      exact (take_succ_suffix_snoc hext.lt).mpr ⟨hext.suffix, by rw [hget, hc]⟩
    · next hc =>
      rcases hext.stops with h0 | h0
      · subst h0; simp
      · rw [hget] at h0
        exact absurd (Option.some.inj h0).symm hc
  have hle : (if c = needle[b] then b + 1 else b) ≤ needle.length := by
    split <;> omega
  refine ⟨if c = needle[b] then b + 1 else b, by simp [advance, hb, hget], ?_, ?_, hle⟩
  · exact fun hlt => ⟨hlt, hsuf, fun k hk => hmax k (by omega)⟩
  · constructor
    · intro heq
      rw [heq, List.take_length] at hsuf
      exact hsuf
    · intro hfull
      have := hmax needle.length (Nat.le_refl _) (by rwa [List.take_length])
      omega

/-! ## The table -/

/-- `for index in from..needle.len() { ..; prefix[index] = matched }`. -/
def tableLoop (needle : List α) : Nat → Nat → List Nat → Nat → Option (List Nat)
  | 0, _, table, _ => some table
  | left + 1, index, table, matched => do
      let c ← needle[index]?
      let m ← advance needle table matched c
      tableLoop needle left (index + 1) (table.set index m) m

/-- The failure table, built in place over `needle.len()` zeros. -/
def table (needle : List α) : Option (List Nat) :=
  tableLoop needle (needle.length - 1) 1 (List.replicate needle.length 0) 0

omit [DecidableEq α] in
/-- Writing entry `n` extends a table that is right below `n`. -/
theorem TableOk.set {needle : List α} {table : List Nat} {n v : Nat}
    (h : TableOk needle table n) (hn : n < table.length)
    (hv : Longest needle ((needle.drop 1).take n) v) :
    TableOk needle (table.set n v) (n + 1) := by
  intro i hi
  by_cases hin : i = n
  · subst hin
    exact ⟨v, by rw [List.getElem?_set_self hn], hv⟩
  · obtain ⟨w, hw, hlong⟩ := h i (by omega)
    exact ⟨w, by rw [List.getElem?_set_ne (by omega)]; exact hw, hlong⟩

theorem tableLoop_spec {needle : List α} :
    ∀ (left index : Nat) (table : List Nat) (matched : Nat),
      0 < index → left + index = needle.length → table.length = needle.length →
      TableOk needle table index →
      Longest needle ((needle.drop 1).take (index - 1)) matched →
      ∃ t, tableLoop needle left index table matched = some t ∧
        TableOk needle t needle.length := by
  intro left
  induction left with
  | zero =>
      intro index table matched _ hidx _ ht _
      rw [Nat.zero_add] at hidx
      exact ⟨table, rfl, hidx ▸ ht⟩
  | succ left ih =>
      intro index table matched hpos hidx hlen ht hl
      have hlt : index < needle.length := by omega
      have hget : needle[index]? = some needle[index] := List.getElem?_eq_getElem hlt
      have hmatched : matched ≤ index := by
        have := le_length_of_take_suffix hl.lt hl.suffix
        rw [List.length_take] at this
        omega
      obtain ⟨m, hm, hlong, _, _⟩ := advance_spec (c := needle[index]) ht hmatched hl
      -- the text grows by the needle's own symbol
      have htext : (needle.drop 1).take (index - 1) ++ [needle[index]]
          = (needle.drop 1).take index := by
        obtain ⟨i, rfl⟩ : ∃ i, index = i + 1 := ⟨index - 1, by omega⟩
        rw [List.take_add_one, List.getElem?_drop, Nat.add_comm 1 i, hget]
        rfl
      have hmlt : m < needle.length := by
        by_contra hge
        obtain ⟨r, hr, _, hfull, hle⟩ := advance_spec (c := needle[index]) ht hmatched hl
        rw [hm] at hr
        injection hr with hr
        subst hr
        have hsuf := hfull.mp (by omega)
        have := hsuf.length_le
        rw [htext, List.length_take, List.length_drop] at this
        omega
      have hnext : Longest needle ((needle.drop 1).take index) m := htext ▸ hlong hmlt
      obtain ⟨t, ht', hok⟩ := ih (index + 1) (table.set index m) m (by omega) (by omega)
        (by rw [List.length_set, hlen]) (ht.set (by omega) hnext)
        (by simpa using hnext)
      exact ⟨t, by simp [tableLoop, hget, hm, ht'], hok⟩

/-- Building the table reads and writes inside its range and yields the borders. -/
theorem table_spec {needle : List α} (hne : needle ≠ []) :
    ∃ t, table needle = some t ∧ TableOk needle t needle.length := by
  have hpos := List.length_pos_of_ne_nil hne
  refine tableLoop_spec (needle.length - 1) 1 _ 0 Nat.one_pos (by omega)
    List.length_replicate ?_ (by simpa using Longest.nil hne)
  intro i hi
  obtain rfl : i = 0 := by omega
  refine ⟨0, ?_, by simpa using Longest.nil hne⟩
  rw [List.getElem?_replicate, if_pos hpos]

/-! ## Scanning a block -/

/-- The inner loop over one block: the number of symbols read when the needle became
complete, or the state after the whole block. -/
def feed (needle : List α) (table : List Nat) :
    List α → Nat → Option (Nat ⊕ Nat)
  | [], matched => some (.inr matched)
  | c :: block, matched => do
      let m ← advance needle table matched c
      if m = needle.length then
        some (.inl 1)
      else do
        let rest ← feed needle table block m
        some (rest.map (· + 1) id)

/-- Where a block scan stops. It stops at the first position at which the needle is a
suffix of what has been read; otherwise the state is the longest partial match. -/
theorem feed_spec {needle : List α} {table : List Nat}
    (ht : TableOk needle table needle.length) :
    ∀ (block text : List α) (matched : Nat), Longest needle text matched →
      ∃ r, feed needle table block matched = some r ∧
        match r with
        | .inl n => 0 < n ∧ n ≤ block.length ∧ needle <:+ text ++ block.take n ∧
            ∀ k, 0 < k → k < n → ¬ needle <:+ text ++ block.take k
        | .inr m => Longest needle (text ++ block) m ∧
            ∀ k, 0 < k → k ≤ block.length → ¬ needle <:+ text ++ block.take k := by
  intro block
  induction block with
  | nil =>
      intro text matched hl
      refine ⟨.inr matched, rfl, by simpa using hl, ?_⟩
      intro k hpos hk
      simp only [List.length_nil] at hk
      omega
  | cons c block ih =>
      intro text matched hl
      obtain ⟨m, hm, hlong, hfull, hle⟩ := advance_spec (c := c) ht (by have := hl.lt; omega) hl
      have hone : text ++ (c :: block).take 1 = text ++ [c] := by simp
      have hcons : ∀ k, text ++ (c :: block).take (k + 1) = (text ++ [c]) ++ block.take k := by
        intro k
        simp
      by_cases hdone : m = needle.length
      · refine ⟨.inl 1, by simp [feed, hm, hdone], Nat.one_pos, by simp, ?_, ?_⟩
        · rw [hone]
          exact hfull.mp hdone
        · intro k hpos hk
          omega
      · have hnot : ¬ needle <:+ text ++ [c] := fun h => hdone (hfull.mpr h)
        obtain ⟨r, hr, hspec⟩ := ih (text ++ [c]) m (hlong (by omega))
        refine ⟨r.map (· + 1) id, by simp [feed, hm, hdone, hr], ?_⟩
        cases r with
        | inl n =>
            obtain ⟨hpos, hlen, hsuf, hbefore⟩ := hspec
            simp only [Sum.map_inl]
            refine ⟨by omega, by simp only [List.length_cons]; omega, ?_, ?_⟩
            · rw [hcons]
              exact hsuf
            · intro k hkpos hk
              cases k with
              | zero => omega
              | succ k =>
                  rw [hcons]
                  cases k with
                  | zero => simpa using hnot
                  | succ k => exact hbefore (k + 1) (by omega) (by omega)
        | inr m' =>
            obtain ⟨hlast, hnone⟩ := hspec
            simp only [Sum.map_inr, id_eq]
            refine ⟨by simpa using hlast, ?_⟩
            intro k hkpos hk
            cases k with
            | zero => omega
            | succ k =>
                rw [hcons]
                cases k with
                | zero => simpa using hnot
                | succ k =>
                    exact hnone (k + 1) (by omega) (by simp only [List.length_cons] at hk; omega)

end Kmp
