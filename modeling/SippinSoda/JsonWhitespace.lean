import SippinSoda.JsonLayout

/-!
# What JSON layout changes

The layout pass has no model of tokens: it knows whether it is in a string, whether a byte is
escaped, and how deep it is. Here its flags are related to where a byte stands (`Lexical`), turn by
turn: what a turn writes reads back to the same place, and differs from its byte only in white
space outside strings. So the layout depends only on what `strip` leaves, which it does not change.
-/

namespace SippinSoda

open JsonSyntax

namespace Layout

/-- Where the next byte stands. -/
def lexical (s : Layout) : Lexical :=
  if s.string then if s.escaped then .escape else .string else .outside

/-- Only a byte of a string is escaped. -/
def Regular (s : Layout) : Prop := s.escaped = true → s.string = true

theorem regular_new : new.Regular := fun h => h

/-- What a turn writes for its byte. -/
inductive Wrote (s s' : Layout) (byte : UInt8) : List UInt8 → Prop
  | copied (hspace : ¬ (s.lexical = .outside ∧ isSpace byte = true))
      (hnext : s'.lexical = s.lexical.next byte) : Wrote s s' byte [byte]
  /-- The byte is ASCII, with white space before or after it. -/
  | spaced {before after : List UInt8} (hbefore : Ws before) (hafter : Ws after)
      (hbyte : byte.toNat < 0x80) (hspace : isSpace byte = false)
      (hnext : Lexical.outside.next byte = .outside) (hs : s.lexical = .outside)
      (hs' : s'.lexical = .outside) : Wrote s s' byte (before ++ byte :: after)
  | dropped (hspace : isSpace byte = true) (hs : s.lexical = .outside) (hs' : s' = s) :
      Wrote s s' byte []

theorem turn_wrote {s s' : Layout} (hregular : s.Regular) {byte : UInt8}
    {pieces : List (List UInt8)} (h : s.turn byte = .ok (s', pieces)) :
    Wrote s s' byte pieces.flatten ∧ s'.Regular := by
  obtain ⟨string, escaped, depth⟩ := s
  cases string with
  | true =>
      obtain ⟨rfl, rfl⟩ := Prod.mk.inj (Except.ok.inj h)
      cases escaped with
      | true => exact ⟨.copied (by simp [lexical]) rfl, fun h => absurd h Bool.false_ne_true⟩
      | false =>
          show Wrote _ (if byte = 0x5C then _ else _) byte [byte] ∧ Regular (if _ then _ else _)
          by_cases hbackslash : byte = 0x5C
          · rw [if_pos hbackslash]
            refine ⟨.copied (by simp [lexical]) ?_, fun _ => rfl⟩
            simp [lexical, Lexical.next, hbackslash]
          · rw [if_neg hbackslash]
            by_cases hquote : byte = 0x22
            · rw [if_pos hquote]
              refine ⟨.copied (by simp [lexical]) ?_, fun h => h⟩
              subst hquote
              rfl
            · rw [if_neg hquote]
              refine ⟨.copied (by simp [lexical]) ?_, fun h => absurd h Bool.false_ne_true⟩
              simp [lexical, Lexical.next, hbackslash, hquote]
  | false =>
      have hescaped : escaped = false := by
        cases escaped with
        | false => rfl
        | true => exact absurd (hregular rfl) Bool.false_ne_true
      subst hescaped
      have hnil : Ws [] := fun _ h => absurd h List.not_mem_nil
      rw [turn, if_neg Bool.false_ne_true] at h
      split_ifs at h with hquote hopen hclose hcomma hcolon hspace
      · obtain ⟨rfl, rfl⟩ := Prod.mk.inj (Except.ok.inj h)
        subst hquote
        exact ⟨.copied (fun h => absurd h.2 (by decide)) rfl, fun h => absurd h Bool.false_ne_true⟩
      · obtain ⟨rfl, rfl⟩ := Prod.mk.inj (Except.ok.inj h)
        refine ⟨?_, fun h => h⟩
        show Wrote _ _ byte ([] ++ byte :: (newline (depth + 1) ++ []))
        rw [List.append_nil]
        rcases hopen with rfl | rfl <;>
          exact .spaced hnil (ws_newline _) (by decide) rfl rfl rfl rfl
      · cases hsub : checkedSub depth 1 with
        | none => simp [hsub] at h
        | some outer =>
            simp only [hsub] at h
            obtain ⟨rfl, rfl⟩ := Prod.mk.inj (Except.ok.inj h)
            refine ⟨?_, fun h => h⟩
            have hflatten : [[0x0A], indent outer, [byte]].flatten = newline outer ++ byte :: [] := by
              simp [newline]
            rw [hflatten]
            rcases hclose with rfl | rfl <;>
              exact .spaced (ws_newline _) hnil (by decide) rfl rfl rfl rfl
      · obtain ⟨rfl, rfl⟩ := Prod.mk.inj (Except.ok.inj h)
        refine ⟨?_, fun h => h⟩
        subst hcomma
        show Wrote _ _ comma ([] ++ comma :: (newline depth ++ []))
        rw [List.append_nil]
        exact .spaced hnil (ws_newline _) (by decide) rfl rfl rfl rfl
      · obtain ⟨rfl, rfl⟩ := Prod.mk.inj (Except.ok.inj h)
        refine ⟨?_, fun h => h⟩
        subst hcolon
        have hblank : Ws [0x20] := List.all_eq_true.mp rfl
        exact .spaced hnil hblank (by decide) rfl rfl rfl rfl
      · obtain ⟨rfl, rfl⟩ := Prod.mk.inj (Except.ok.inj h)
        refine ⟨.dropped ?_ rfl rfl, fun h => h⟩
        rcases hspace with rfl | rfl | rfl | rfl <;> rfl
      · obtain ⟨rfl, rfl⟩ := Prod.mk.inj (Except.ok.inj h)
        refine ⟨.copied (fun hand => hspace ?_) ?_, fun h => h⟩
        · have hbyte := hand.2
          simpa only [isSpace, Bool.or_eq_true, beq_iff_eq, or_assoc] using hbyte
        · show Lexical.outside = if byte = quote then _ else _
          rw [if_neg hquote]

/-- A turn differs from its byte in white space outside strings only. -/
theorem Wrote.strip {s s' : Layout} {byte : UInt8} {written : List UInt8}
    (h : Wrote s s' byte written) :
    JsonSyntax.strip s.lexical written = JsonSyntax.strip s.lexical [byte] ∧
      s.lexical.after written = s'.lexical ∧ s.lexical.next byte = s'.lexical := by
  cases h with
  | copied _ hnext => exact ⟨rfl, hnext.symm, hnext.symm⟩
  | @spaced before after hbefore hafter _ hspace hnext hs hs' =>
      obtain ⟨hstrip, hplace⟩ := hbefore.strip
      obtain ⟨hstrip', hplace'⟩ := hafter.strip
      have hnot : ¬ (Lexical.outside = .outside ∧ isSpace byte = true) := by
        rw [hspace]
        exact fun h => absurd h.2 Bool.false_ne_true
      rw [hs, hs', strip_append, hstrip, hplace, Lexical.after_append, hplace,
        Lexical.after_cons, hnext, hplace', strip_cons_of_not hnot, strip_cons_of_not hnot, hnext,
        hstrip']
      exact ⟨rfl, rfl, rfl⟩
  | dropped hspace hs hs' =>
      subst hs'
      rw [hs, strip_cons_of_isSpace hspace, next_of_isSpace hspace]
      exact ⟨rfl, rfl, rfl⟩

/-- A turn leaves owed what its byte does. -/
theorem Wrote.utf8 {s s' : Layout} {byte : UInt8} {written : List UInt8}
    (h : Wrote s s' byte written) {owed owed' : Utf8.Owed} (howed : Utf8.Continues owed)
    (hstep : Utf8.step owed byte = some owed') : Utf8.run owed written = some owed' := by
  have hascii {space : List UInt8} (hspace : Ws space) : Utf8.run [] space = some [] := by
    apply Utf8.run_ascii
    intro b hb
    exact isSpace_lt (hspace b hb)
  cases h with
  | copied =>
      rw [Utf8.run_cons, hstep]
      rfl
  | spaced hbefore hafter hbyte =>
      obtain ⟨rfl, rfl⟩ := Utf8.step_ascii howed hbyte hstep
      rw [Utf8.run_append, hascii hbefore, Option.bind_some, Utf8.run_cons, hstep,
        Option.bind_some, hascii hafter]
  | dropped hspace =>
      obtain ⟨rfl, rfl⟩ := Utf8.step_ascii howed (isSpace_lt hspace) hstep
      rfl

/-! ## Whole layouts -/

/-- A turn goes on from what was written before. -/
theorem write_eq_ok {s t : Layout × List UInt8} {byte : UInt8} :
    write s byte = .ok t ↔
      ∃ pieces, s.1.turn byte = .ok (t.1, pieces) ∧ t.2 = s.2 ++ pieces.flatten := by
  rw [write, Except.bind_eq_ok]
  constructor
  · rintro ⟨⟨layout, pieces⟩, hturn, ht⟩
    obtain rfl := Except.ok.inj ht
    exact ⟨pieces, hturn, rfl⟩
  · rintro ⟨pieces, hturn, ht⟩
    refine ⟨_, hturn, ?_⟩
    show Except.ok (t.1, s.2 ++ pieces.flatten) = Except.ok t
    rw [← ht]

/-- The layout strips to what its text strips to, and is UTF-8 where the text is. -/
theorem foldlM_write_strip {bytes : List UInt8} {s t : Layout × List UInt8}
    (hregular : s.1.Regular) (h : bytes.foldlM write s = .ok t) :
    ∃ laid, t.2 = s.2 ++ laid ∧ strip s.1.lexical laid = strip s.1.lexical bytes ∧
      ∀ {owed owed' : Utf8.Owed}, Utf8.Continues owed → Utf8.run owed bytes = some owed' →
        Utf8.run owed laid = some owed' := by
  induction bytes generalizing s with
  | nil =>
      obtain rfl := Except.ok.inj h
      exact ⟨[], (List.append_nil _).symm, rfl, fun _ hrun => hrun⟩
  | cons byte bytes ih =>
      rw [List.foldlM_cons] at h
      obtain ⟨u, hu, hrest⟩ := Except.bind_eq_ok.mp h
      obtain ⟨pieces, hturn, hu⟩ := write_eq_ok.mp hu
      obtain ⟨hwrote, hregular⟩ := turn_wrote hregular hturn
      obtain ⟨laid, ht, hstrip, hutf8⟩ := ih hregular hrest
      obtain ⟨hpieces, hafter, hnext⟩ := hwrote.strip
      refine ⟨pieces.flatten ++ laid, ?_, ?_, ?_⟩
      · rw [ht, hu, List.append_assoc]
      · have hsplit := strip_append s.1.lexical [byte] bytes
        rw [Lexical.after_cons, hnext] at hsplit
        rw [strip_append, hafter, hstrip, hpieces]
        exact hsplit.symm
      · intro owed owed' howed hrun
        rw [Utf8.run_cons] at hrun
        obtain ⟨between, hstep, hrun⟩ := Option.bind_eq_some_iff.mp hrun
        rw [Utf8.run_append, hwrote.utf8 howed hstep, Option.bind_some]
        exact hutf8 (howed.step hstep) hrun

theorem eq_outside {s : Layout} (hregular : s.Regular) (h : s.lexical = .outside) :
    s = outside s.depth := by
  obtain ⟨string, escaped, depth⟩ := s
  cases string with
  | true => cases escaped <;> exact absurd h (by simp [lexical])
  | false =>
      cases escaped with
      | false => rfl
      | true => exact absurd (hregular rfl) Bool.false_ne_true

/-- White space outside strings is of no consequence for the layout. -/
theorem foldlM_write_of_strip {bytes : List UInt8} {s : Layout × List UInt8}
    (hregular : s.1.Regular) :
    bytes.foldlM write s = (strip s.1.lexical bytes).foldlM write s := by
  induction bytes generalizing s with
  | nil => rfl
  | cons byte bytes ih =>
      by_cases hspace : s.1.lexical = .outside ∧ isSpace byte = true
      · obtain ⟨houtside, hspace⟩ := hspace
        have hwrite : write s byte = .ok s := by
          have hcopies := (write_copies s.1.depth s.2).space [] byte hspace
          rw [List.append_nil, ← eq_outside hregular houtside] at hcopies
          exact hcopies
        rw [houtside, strip_cons_of_isSpace hspace, List.foldlM_cons, hwrite, ← houtside]
        exact ih hregular
      · rw [strip_cons_of_not hspace, List.foldlM_cons, List.foldlM_cons]
        cases hu : write s byte with
        | error e => rfl
        | ok u =>
            obtain ⟨pieces, hturn, -⟩ := write_eq_ok.mp hu
            obtain ⟨hwrote, hregular'⟩ := turn_wrote hregular hturn
            rw [hwrote.strip.2.2]
            exact ih hregular'

end Layout

/-! ## The result -/

/-- What JSON layout changes of a text, and what it does not. -/
structure LaysOut (serde : IgnoredAny) (bytes layout : List UInt8) : Prop where
  /-- Only white space outside strings differs. -/
  strip : strip .outside layout = strip .outside bytes
  /-- The layout is accepted wherever there is room for it, and is its own layout. -/
  idempotent : ∀ {env : LayoutEnv}, env.Delivers layout → env.Ready → env.Room layout.length →
    formatJson serde env = .ok (layout, layout.length)
  /-- Texts that differ in such white space only have one layout. -/
  unique : ∀ {env : LayoutEnv} {bytes' layout' : List UInt8} {size : Nat}, env.Delivers bytes' →
    formatJson serde env = .ok (layout', size) →
    JsonSyntax.strip .outside bytes' = JsonSyntax.strip .outside bytes → layout' = layout
  /-- The depth to which they nest is one and the same. -/
  depth : ∃ n ≤ 128, ∀ m, (Text m bytes ↔ m = n) ∧ (Text m layout ↔ m = n)
  /-- The indentation ends where it began, and no subtraction is out of range on the way. -/
  indentation : bytes.foldlM Layout.write (Layout.new, []) = .ok (Layout.new, layout)
  /-- Nor is one when a pass is cut short: by the budget, a cancellation or an error. -/
  noPanic : ∀ {env : LayoutEnv}, (∀ fetches, env.second = .ok fetches →
    fetches.flatMap Fetch.data <+: bytes) → formatJson serde env ≠ .error .panic

/-! ## Panics -/

theorem foldlM_ne_panic {σ : Type} {f : σ → UInt8 → Except Failure σ}
    (hf : ∀ s byte, f s byte ≠ .error .panic) (bytes : List UInt8) (s : σ) :
    bytes.foldlM f s ≠ .error .panic := by
  induction bytes generalizing s with
  | nil => exact fun h => absurd h (by simp [pure, Except.pure])
  | cons byte bytes ih =>
      intro h
      rw [List.foldlM_cons, Except.bind_eq_error] at h
      rcases h with h | ⟨s', -, h⟩
      · exact hf s byte h
      · exact ih s' h

theorem mapError_ne_panic {α : Type} {x : Except String α} :
    x.mapError Failure.error ≠ .error .panic := by
  cases x <;> simp [Except.mapError]

namespace CheckedReader

theorem scan_ne_panic (r : CheckedReader) (byte : UInt8) : scan r byte ≠ .error .panic := by
  unfold scan
  split_ifs <;> simp

theorem read_ne_panic (r : CheckedReader) (fetch : Fetch) : r.read fetch ≠ .error .panic := by
  cases fetch with
  | cancelled => simp [read]
  | failed message => simp [read]
  | bytes bytes =>
      intro h
      rcases Except.bind_eq_error.mp h with h | ⟨tail, -, h⟩
      · unfold carry at h
        split at h
        · exact absurd h (by simp)
        · split_ifs at h
          exact absurd h (by simp)
      · rcases Except.bind_eq_error.mp h with h | ⟨r', -, h⟩
        · exact foldlM_ne_panic scan_ne_panic bytes _ h
        · exact absurd h (by simp [pure, Except.pure])

/-- Only what a pass does with the bytes it has read can panic. -/
theorem forBytes_eq_panic {σ : Type} {f : σ → UInt8 → Except Failure σ} {fetches : List Fetch}
    {r : CheckedReader} {s : σ} (h : forBytes f fetches r s = .error .panic) :
    ∃ bytes, bytes <+: fetches.flatMap Fetch.data ∧ bytes.foldlM f s = .error .panic := by
  induction fetches generalizing r s with
  | nil =>
      rcases Except.bind_eq_error.mp h with h | ⟨a, -, h⟩
      · exact absurd h (read_ne_panic r _)
      · exact absurd h (by simp [pure, Except.pure])
  | cons fetch fetches ih =>
      rcases Except.bind_eq_error.mp h with h | ⟨⟨bytes, r'⟩, hread, h⟩
      · exact absurd h (read_ne_panic r _)
      have hdata : fetch.data = bytes := by
        cases fetch with
        | cancelled => exact absurd hread (by simp [read])
        | failed message => exact absurd hread (by simp [read])
        | bytes chunk =>
            obtain ⟨tail, -, hread⟩ := Except.bind_eq_ok.mp hread
            obtain ⟨r'', -, hread⟩ := Except.bind_eq_ok.mp hread
            exact (Prod.mk.inj (Except.ok.inj hread)).1
      rw [List.flatMap_cons, hdata]
      dsimp only at h
      split_ifs at h
      · exact absurd h (by simp [pure, Except.pure])
      rcases Except.bind_eq_error.mp h with h | ⟨s', hbytes, h⟩
      · exact ⟨bytes, List.prefix_append _ _, h⟩
      · obtain ⟨more, hmore, hpanic⟩ := ih h
        refine ⟨bytes ++ more, (List.prefix_append_right_inj bytes).mpr hmore, ?_⟩
        rw [List.foldlM_append, hbytes]
        exact hpanic

end CheckedReader

theorem BudgetWriter.write_ne_panic (env : LayoutEnv) (w : BudgetWriter) (bytes : List UInt8) :
    w.write env bytes ≠ .error .panic := by
  unfold write
  split_ifs
  · simp
  · simp
  · split <;> simp

namespace BufWriter

theorem flush_ne_panic (env : LayoutEnv) (w : BufWriter) : w.flush env ≠ .error .panic := by
  unfold flush
  split_ifs
  · simp
  · intro h
    rcases Except.bind_eq_error.mp h with h | ⟨inner, -, h⟩
    · exact BudgetWriter.write_ne_panic env _ _ h
    · exact absurd h (by simp [pure, Except.pure])

theorem put_ne_panic (env : LayoutEnv) (w : BufWriter) (bytes : List UInt8) :
    w.put env bytes ≠ .error .panic := by
  unfold put
  split_ifs
  · intro h
    rcases Except.bind_eq_error.mp h with h | ⟨inner, -, h⟩
    · exact BudgetWriter.write_ne_panic env _ _ h
    · exact absurd h (by simp [pure, Except.pure])
  · simp

theorem writeAll_ne_panic (env : LayoutEnv) (w : BufWriter) (bytes : List UInt8) :
    w.writeAll env bytes ≠ .error .panic := by
  unfold writeAll
  dsimp only
  split_ifs
  · simp
  · intro h
    rcases Except.bind_eq_error.mp h with h | ⟨u, -, h⟩
    · exact flush_ne_panic env w h
    · exact put_ne_panic env u bytes h
  · exact put_ne_panic env w bytes

theorem foldlM_writeAll_ne_panic (env : LayoutEnv) (pieces : List (List UInt8)) (w : BufWriter) :
    pieces.foldlM (writeAll env) w ≠ .error .panic := by
  induction pieces generalizing w with
  | nil => exact fun h => absurd h (by simp [pure, Except.pure])
  | cons bytes pieces ih =>
      intro h
      rw [List.foldlM_cons] at h
      rcases Except.bind_eq_error.mp h with h | ⟨u, -, h⟩
      · exact writeAll_ne_panic env w bytes h
      · exact ih u h

end BufWriter

/-- Of a layout pass, the turns panic or nothing does. -/
theorem foldlM_layoutByte_eq_panic {env : LayoutEnv} {bytes : List UInt8}
    {s : Layout × BufWriter} (hbalanced : s.2.Balanced)
    (h : bytes.foldlM (layoutByte env) s = .error .panic) :
    bytes.foldlM Layout.write (s.1, s.2.content) = .error .panic := by
  induction bytes generalizing s with
  | nil => exact absurd h (by simp [pure, Except.pure])
  | cons byte bytes ih =>
      rw [List.foldlM_cons] at h ⊢
      rw [Layout.write]
      rcases Except.bind_eq_error.mp h with h | ⟨u, hu, h⟩
      · rcases Except.bind_eq_error.mp h with h | ⟨⟨layout, pieces⟩, hturn, h⟩
        · rw [h]
          rfl
        · rcases Except.bind_eq_error.mp h with h | ⟨output, -, h⟩
          · exact absurd h (BufWriter.foldlM_writeAll_ne_panic env pieces s.2)
          · exact absurd h (by simp [pure, Except.pure])
      · obtain ⟨⟨layout, pieces⟩, hturn, hu⟩ := Except.bind_eq_ok.mp hu
        obtain ⟨output, houtput, hu⟩ := Except.bind_eq_ok.mp hu
        obtain rfl := Except.ok.inj hu
        obtain ⟨hcontent, hbalanced⟩ := BufWriter.foldlM_writeAll_eq_ok houtput hbalanced
        rw [hturn]
        show bytes.foldlM Layout.write (layout, s.2.content ++ pieces.flatten) = _
        rw [← hcontent]
        exact ih hbalanced h

theorem validate_ne_panic (serde : IgnoredAny) (fetches : List Fetch) :
    validate serde fetches ≠ .error .panic := by
  intro h
  rcases Except.bind_eq_error.mp h with h | ⟨s, -, h⟩
  · obtain ⟨bytes, -, h⟩ := CheckedReader.forBytes_eq_panic h
    exact foldlM_ne_panic (fun s byte => mapError_ne_panic) bytes _ h
  · exact mapError_ne_panic h

/-- A layout panics only where its turns do. -/
theorem formatJson_eq_panic {serde : IgnoredAny} {env : LayoutEnv}
    (h : formatJson serde env = .error .panic) :
    ∃ fetches bytes, env.second = .ok fetches ∧ bytes <+: fetches.flatMap Fetch.data ∧
      bytes.foldlM Layout.write (Layout.new, []) = .error .panic := by
  rcases Except.bind_eq_error.mp h with h | ⟨fetches, -, h⟩
  · exact absurd h mapError_ne_panic
  rcases Except.bind_eq_error.mp h with h | ⟨⟨⟩, -, h⟩
  · have hvalidate := validate_ne_panic serde fetches
    cases hresult : validate serde fetches with
    | ok => simp [hresult, Except.mapError] at h
    | error e =>
        cases e with
        | panic => exact absurd hresult hvalidate
        | error message => simp [hresult, Except.mapError] at h
  rcases Except.bind_eq_error.mp h with h | ⟨⟨⟩, -, h⟩
  · exact absurd h mapError_ne_panic
  rcases Except.bind_eq_error.mp h with h | ⟨fetches', hsecond, h⟩
  · exact absurd h mapError_ne_panic
  rcases Except.bind_eq_error.mp h with h | ⟨⟨s, output⟩, -, h⟩
  · obtain ⟨bytes, hbytes, h⟩ := CheckedReader.forBytes_eq_panic h
    exact ⟨fetches', bytes, mapError_eq_ok.mp hsecond, hbytes,
      foldlM_layoutByte_eq_panic (s := (Layout.new, BufWriter.new)) rfl h⟩
  · rcases Except.bind_eq_error.mp h with h | ⟨output', -, h⟩
    · exact absurd h (BufWriter.flush_ne_panic env output)
    · exact absurd h (by simp [pure, Except.pure])

/-- Of depths within the limit, the reader finds a text's own. -/
theorem depth_le {bytes : List UInt8} {m n : Nat} (hm : Text m bytes)
    (hn : Text n bytes) (hle : n ≤ 128) : m ≤ n := by
  have hdepth : 128 - n ≤ 128 := Nat.sub_le _ _
  have hleft := CheckedReader.foldlM_scan hm hdepth []
  have hright := CheckedReader.foldlM_scan hn hdepth []
  rw [if_neg (by omega), hleft] at hright
  by_contra hlt
  rw [if_pos (by omega)] at hright
  exact absurd hright (by simp)

theorem depth_iff {bytes : List UInt8} {n : Nat} (h : Text n bytes) (hle : n ≤ 128) {m : Nat} :
    Text m bytes ↔ m = n := by
  constructor
  · intro hm
    have hmn := depth_le hm h hle
    exact Nat.le_antisymm hmn (depth_le h hm (by omega))
  · rintro rfl
    exact h

/-- **JSON layout changes only white space outside strings.** -/
theorem layout_changes_only_whitespace {serde : IgnoredAny} (hserde : serde.Validates)
    {env : LayoutEnv} {bytes layout : List UInt8} {size : Nat} (henv : env.Delivers bytes)
    (h : formatJson serde env = .ok (layout, size)) : LaysOut serde bytes layout := by
  obtain ⟨⟨hreadable, hvalid, s, hwritten⟩, -⟩ := laidOut_of_formatJson henv h
  obtain ⟨n, htext⟩ := (hserde bytes).mp hvalid
  obtain ⟨laid, hlaid, htext'⟩ := Layout.foldlM_write htext 0 []
  obtain ⟨hs, hlayout⟩ := Prod.mk.inj (Except.ok.inj (hwritten.symm.trans hlaid))
  rw [List.nil_append] at hlayout
  subst hlayout hs
  obtain ⟨laid, hlayout, hstrip, hutf8⟩ :=
    Layout.foldlM_write_strip Layout.regular_new hwritten
  obtain rfl : layout = laid := hlayout
  have hstrip : strip .outside layout = strip .outside bytes := hstrip
  -- What strips alike is laid out alike.
  have hsame {bytes' : List UInt8} (hstrip : strip .outside bytes' = strip .outside bytes) :
      bytes'.foldlM Layout.write (Layout.new, []) = .ok (Layout.new, layout) := by
    have hleft : bytes'.foldlM Layout.write (Layout.new, []) = _ :=
      Layout.foldlM_write_of_strip Layout.regular_new
    have hright : bytes.foldlM Layout.write (Layout.new, []) = _ :=
      Layout.foldlM_write_of_strip Layout.regular_new
    rw [hleft]
    show (strip .outside bytes').foldlM Layout.write (Layout.new, []) = _
    rw [hstrip]
    exact hright.symm.trans hwritten
  have hdepth : n ≤ 128 := ((readable_iff htext).mp hreadable).2
  have hutf8' : Utf8Text layout :=
    Utf8.run_eq_some_nil.mp (hutf8 Utf8.continues_nil hreadable.1)
  have hreadable' : Readable layout := (readable_iff htext').mpr ⟨hutf8', hdepth⟩
  refine ⟨hstrip, ?_, ?_, ⟨n, hdepth, ?_⟩, hwritten, ?_⟩
  · intro env henv hready hroom
    exact formatJson_of_laidOut henv hready hroom
      ⟨hreadable', (hserde layout).mpr ⟨n, htext'⟩, _, hsame hstrip⟩
  · intro env bytes' layout' size' henv' h' hstrip'
    obtain ⟨⟨-, -, s', hwritten'⟩, -⟩ := laidOut_of_formatJson henv' h'
    exact (Prod.mk.inj (Except.ok.inj (hwritten'.symm.trans (hsame hstrip')))).2
  · exact fun m => ⟨depth_iff htext hdepth, depth_iff htext' hdepth⟩
  · intro env hsecond hpanic
    obtain ⟨fetches, more, hopen, hmore, hturns⟩ := formatJson_eq_panic hpanic
    obtain ⟨rest, hrest⟩ := hmore.trans (hsecond fetches hopen)
    rw [← hrest, List.foldlM_append, hturns] at hwritten
    exact absurd hwritten (by simp [bind, Except.bind])

/-- The layout of `sampleJson`. -/
theorem sample_is_laid_out : LaysOut IgnoredAny.grammar sampleJson
    (Utf8.encode "\x7b\n  \"é\": [\n    \n  ]\n\x7d".toList) := by
  have hwritten : sampleJson.foldlM Layout.write (Layout.new, []) =
      .ok (Layout.new, Utf8.encode "\x7b\n  \"é\": [\n    \n  ]\n\x7d".toList) := by
    decide +kernel
  have hlaid : LaidOut IgnoredAny.grammar sampleJson
      (Utf8.encode "\x7b\n  \"é\": [\n    \n  ]\n\x7d".toList) := by
    refine ⟨(readable_iff sampleJson_text).mpr ⟨?_, by decide⟩, ?_, _, hwritten⟩
    · exact ⟨"\x7b\"é\":[]\x7d".toList, by decide +kernel⟩
    · exact (IgnoredAny.grammar_validates _).mpr ⟨2, sampleJson_text⟩
  refine layout_changes_only_whitespace IgnoredAny.grammar_validates sampleEnv_delivers
    (formatJson_of_laidOut sampleEnv_delivers sampleEnv_ready ?_ hlaid)
  intro n
  show 9 + (Utf8.encode "\x7b\n  \"é\": [\n    \n  ]\n\x7d".toList).length ≤ 1000
  decide +kernel

end SippinSoda
