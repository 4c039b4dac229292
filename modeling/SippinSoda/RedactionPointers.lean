import SippinSoda.Redact
import SippinSoda.Host
import Mathlib.Data.List.Induction

/-!
# The pointers a configuration writes

RFC 6901 writes a sequence of reference tokens with `~0` for `~` and `~1` for `/` in a token.
`compile_redaction_paths` reads it back, but for white space at the end of the text, which it trims
from every path it is given.
-/

namespace SippinSoda

/-! ## Written pointers -/

/-- A reference token as RFC 6901 writes it. -/
def encodeToken (token : Str) : Str :=
  token.flatMap fun c => if c = '~' then ['~', '0'] else if c = '/' then ['~', '1'] else [c]

/-- A sequence of reference tokens, each with its slash. -/
def encodePointer (tokens : List Str) : Str := tokens.flatMap fun token => '/' :: encodeToken token

theorem encodeToken_cons (c : Char) (token : Str) : encodeToken (c :: token) =
    (if c = '~' then ['~', '0'] else if c = '/' then ['~', '1'] else [c]) ++ encodeToken token :=
  List.flatMap_cons

theorem encodeToken_append (a b : Str) : encodeToken (a ++ b) = encodeToken a ++ encodeToken b :=
  List.flatMap_append

theorem encodePointer_cons (token : Str) (tokens : List Str) :
    encodePointer (token :: tokens) = '/' :: (encodeToken token ++ encodePointer tokens) := by
  rw [encodePointer, List.flatMap_cons]
  rfl

theorem encodePointer_append (a b : List Str) :
    encodePointer (a ++ b) = encodePointer a ++ encodePointer b := List.flatMap_append

theorem decodePointerSegment_plain {c : Char} (h : c ≠ '~') (rest : Str) :
    decodePointerSegment (c :: rest) = (decodePointerSegment rest).map (c :: ·) := by
  rw [decodePointerSegment]
  · intro _ heq
    exact absurd heq h
  · intro _ heq
    exact absurd heq h
  · exact h

/-- A token is read back. -/
theorem decodePointerSegment_encodeToken (token : Str) :
    decodePointerSegment (encodeToken token) = .ok token := by
  induction token with
  | nil => rfl
  | cons c token ih =>
      rw [encodeToken_cons]
      split_ifs with htilde hslash
      · subst htilde
        show (decodePointerSegment (encodeToken token)).map ('~' :: ·) = _
        rw [ih]
        rfl
      · subst hslash
        show (decodePointerSegment (encodeToken token)).map ('/' :: ·) = _
        rw [ih]
        rfl
      · show decodePointerSegment (c :: encodeToken token) = _
        rw [decodePointerSegment_plain htilde, ih]
        rfl

theorem map_eq_ok {ε α β : Type} {x : Except ε α} {f : α → β} {b : β} :
    x.map f = .ok b ↔ ∃ a, x = .ok a ∧ f a = b := by
  cases x <;> simp [Except.map]

/-- What is read is written so. -/
theorem eq_encodeToken {segment token : Str} (hslash : '/' ∉ segment)
    (h : decodePointerSegment segment = .ok token) : segment = encodeToken token := by
  induction segment using decodePointerSegment.induct generalizing token with
  | case1 =>
      obtain rfl := Except.ok.inj h
      rfl
  | case2 rest ih =>
      obtain ⟨more, hmore, rfl⟩ := map_eq_ok.mp h
      rw [ih (fun hmem => hslash (by simp [hmem])) hmore, encodeToken_cons, if_pos rfl]
      rfl
  | case3 rest ih =>
      obtain ⟨more, hmore, rfl⟩ := map_eq_ok.mp h
      rw [ih (fun hmem => hslash (by simp [hmem])) hmore, encodeToken_cons,
        if_neg (by decide), if_pos rfl]
      rfl
  | case4 rest h0 h1 =>
      rw [decodePointerSegment.eq_4 rest h0 h1] at h
      exact absurd h (by simp)
  | case5 c rest _ _ htilde ih =>
      rw [decodePointerSegment_plain htilde] at h
      obtain ⟨more, hmore, rfl⟩ := map_eq_ok.mp h
      have hc : c ≠ '/' := fun hc => hslash (by simp [hc])
      rw [ih (fun hmem => hslash (List.mem_cons_of_mem _ hmem)) hmore, encodeToken_cons,
        if_neg htilde, if_neg hc]
      rfl

theorem slash_not_mem_encodeToken (token : Str) : '/' ∉ encodeToken token := by
  intro h
  obtain ⟨c, -, hc⟩ := List.mem_flatMap.mp h
  split_ifs at hc with htilde hslash
  · exact absurd hc (by decide)
  · exact absurd hc (by decide)
  · exact hslash (List.mem_singleton.mp hc).symm

/-- The slashes of a pointer separate its tokens. -/
theorem splitOn_encodePointer (token : Str) (tokens : List Str) :
    (encodeToken token ++ encodePointer tokens).splitOn '/' =
      (token :: tokens).map encodeToken := by
  induction tokens generalizing token with
  | nil =>
      rw [encodePointer, List.flatMap_nil, List.append_nil,
        List.splitOn_eq_singleton (slash_not_mem_encodeToken token)]
      rfl
  | cons next tokens ih =>
      rw [encodePointer_cons,
        List.splitOn_append_cons_self_of_not_mem (slash_not_mem_encodeToken token), ih]
      rfl

theorem intercalate_encode (token : Str) (tokens : List Str) :
    ['/'].intercalate ((token :: tokens).map encodeToken) =
      encodeToken token ++ encodePointer tokens := by
  induction tokens generalizing token with
  | nil => simp [encodePointer]
  | cons next tokens ih =>
      rw [List.map_cons, List.map_cons, List.intercalate_cons_cons, ← List.map_cons, ih,
        encodePointer_cons, List.append_assoc]
      rfl

theorem not_mem_of_mem_splitOn {sep : Char} {piece : Str} :
    ∀ {s : Str}, piece ∈ s.splitOn sep → sep ∉ piece := by
  intro s
  induction s generalizing piece with
  | nil =>
      intro hpiece
      rw [List.splitOn_nil, List.mem_singleton] at hpiece
      rw [hpiece]
      exact List.not_mem_nil
  | cons c s ih =>
      intro hpiece
      rw [List.splitOn_cons_eq_if_modifyHead] at hpiece
      split at hpiece
      · rcases List.mem_cons.mp hpiece with rfl | hpiece
        · exact List.not_mem_nil
        · exact ih hpiece
      · next hsep =>
        rcases hsplit : s.splitOn sep with _ | ⟨first, rest⟩
        · exact absurd hsplit (List.splitOn_ne_nil sep s)
        · rw [hsplit, List.modifyHead_cons] at hpiece
          rw [hsplit] at ih
          rcases List.mem_cons.mp hpiece with rfl | hpiece
          · rw [List.mem_cons, not_or]
            exact ⟨fun h => hsep (by simp [h]), ih List.mem_cons_self⟩
          · exact ih (List.mem_cons_of_mem _ hpiece)

theorem mapM_decode (tokens : List Str) :
    (tokens.map encodeToken).mapM decodePointerSegment = .ok tokens := by
  induction tokens with
  | nil => rfl
  | cons token tokens ih =>
      rw [List.map_cons, List.mapM_cons, decodePointerSegment_encodeToken, ih]
      rfl

/-- Segments that are read are written tokens. -/
theorem eq_map_encodeToken {segments tokens : List Str} (hslash : ∀ s ∈ segments, '/' ∉ s)
    (h : segments.mapM decodePointerSegment = .ok tokens) : segments = tokens.map encodeToken := by
  induction segments generalizing tokens with
  | nil =>
      obtain rfl := Except.ok.inj h
      rfl
  | cons segment segments ih =>
      rw [List.mapM_cons] at h
      obtain ⟨token, htoken, h⟩ := Except.bind_eq_ok.mp h
      obtain ⟨rest, hrest, h⟩ := Except.bind_eq_ok.mp h
      obtain rfl := Except.ok.inj h
      rw [List.map_cons, eq_encodeToken (hslash segment List.mem_cons_self) htoken,
        ih (fun s hs => hslash s (List.mem_cons_of_mem _ hs)) hrest]

/-! ## White space at the end -/

theorem trimEnd_snoc {p : Char → Bool} (a : Str) (c : Char) :
    Str.trimEndMatches p (a ++ [c]) = if p c = true then Str.trimEndMatches p a else a ++ [c] := by
  rw [Str.trimEndMatches, List.reverse_append, List.reverse_singleton, List.singleton_append,
    List.dropWhile_cons]
  split_ifs
  · rfl
  · rw [List.reverse_cons, List.reverse_reverse]

/-- White space at the end of a pointer is that of its last token. -/
theorem trimEnd_encodeToken (before token : Str) :
    Str.trimEndMatches Str.isWhitespace (before ++ '/' :: encodeToken token) =
      before ++ '/' :: encodeToken (Str.trimEndMatches Str.isWhitespace token) := by
  induction token using List.reverseRecOn with
  | nil => exact trimEnd_snoc before '/'
  | append_singleton token c ih =>
      rw [encodeToken_append, trimEnd_snoc token c]
      by_cases hspace : Str.isWhitespace c = true
      · have htilde : c ≠ '~' := fun h => absurd (h ▸ hspace) (by decide)
        have hslash : c ≠ '/' := fun h => absurd (h ▸ hspace) (by decide)
        have hencode : encodeToken [c] = [c] := by
          rw [encodeToken_cons, if_neg htilde, if_neg hslash]
          rfl
        rw [if_pos hspace, ← ih, hencode, ← List.cons_append, ← List.append_assoc, trimEnd_snoc,
          if_pos hspace]
      · -- The last character of the token is written as one that is not white space.
        obtain ⟨init, last, hencode, hlast⟩ : ∃ init last, encodeToken [c] = init ++ [last] ∧
            Str.isWhitespace last ≠ true := by
          rw [encodeToken_cons]
          split_ifs
          · exact ⟨['~'], '0', rfl, by decide⟩
          · exact ⟨['~'], '1', rfl, by decide⟩
          · exact ⟨[], c, rfl, hspace⟩
        rw [if_neg hspace, encodeToken_append, hencode, ← List.append_assoc, ← List.cons_append,
          ← List.append_assoc, trimEnd_snoc, if_neg hlast]

theorem trim_encodePointer (tokens : List Str) (token : Str) :
    Str.trim (encodePointer (tokens ++ [token])) =
      encodePointer (tokens ++ [Str.trimEndMatches Str.isWhitespace token]) := by
  have hlast (token : Str) : encodePointer (tokens ++ [token]) =
      encodePointer tokens ++ '/' :: encodeToken token := by
    rw [encodePointer_append, encodePointer_cons]
    show encodePointer tokens ++ '/' :: (encodeToken token ++ []) = _
    rw [List.append_nil]
  have hstart : Str.trimStartMatches Str.isWhitespace (encodePointer (tokens ++ [token])) =
      encodePointer (tokens ++ [token]) := by
    apply Str.trimStartMatches_eq_self
    cases tokens with
    | nil =>
        intro c hc
        obtain rfl := Option.some.inj hc
        decide
    | cons first tokens =>
        intro c hc
        obtain rfl := Option.some.inj hc
        decide
  rw [Str.trim, hstart, hlast, hlast, trimEnd_encodeToken]

/-! ## Escapes -/

/-- Some `~` is followed by neither `0` nor `1`. -/
def BadEscape (text : Str) : Prop :=
  ∃ before after, text = before ++ '~' :: after ∧ after.head? ≠ some '0' ∧ after.head? ≠ some '1'

theorem badEscape_cons {c : Char} {text : Str} : BadEscape (c :: text) ↔
    (c = '~' ∧ text.head? ≠ some '0' ∧ text.head? ≠ some '1') ∨ BadEscape text := by
  constructor
  · rintro ⟨before, after, heq, h0, h1⟩
    cases before with
    | nil =>
        obtain ⟨rfl, rfl⟩ := List.cons.inj heq
        exact .inl ⟨rfl, h0, h1⟩
    | cons d before =>
        obtain ⟨rfl, rfl⟩ := List.cons.inj heq
        exact .inr ⟨before, after, rfl, h0, h1⟩
  · rintro (⟨rfl, h0, h1⟩ | ⟨before, after, rfl, h0, h1⟩)
    · exact ⟨[], text, rfl, h0, h1⟩
    · exact ⟨c :: before, after, rfl, h0, h1⟩

theorem not_badEscape_nil : ¬ BadEscape [] := by
  rintro ⟨before, after, heq, -⟩
  cases before <;> exact absurd heq (by simp)

/-- Written pointers have good escapes. -/
theorem not_badEscape_token {token rest : Str} (h : ¬ BadEscape rest) :
    ¬ BadEscape (encodeToken token ++ rest) := by
  induction token with
  | nil => exact h
  | cons c token ih =>
      rw [encodeToken_cons]
      split_ifs with htilde hslash
      · simp [badEscape_cons, ih]
      · simp [badEscape_cons, ih]
      · simp [badEscape_cons, ih, htilde]

theorem not_badEscape_pointer (tokens : List Str) : ¬ BadEscape (encodePointer tokens) := by
  induction tokens with
  | nil => exact not_badEscape_nil
  | cons token tokens ih =>
      rw [encodePointer_cons, badEscape_cons, not_or]
      exact ⟨fun h => absurd h.1 (by decide), not_badEscape_token ih⟩

/-- A text with good escapes is a written pointer after its first slash. -/
theorem exists_tokens {text : Str} (h : ¬ BadEscape text) :
    ∃ token tokens, text = encodeToken token ++ encodePointer tokens := by
  induction text using decodePointerSegment.induct with
  | case1 => exact ⟨[], [], rfl⟩
  | case2 rest ih =>
      simp only [badEscape_cons, not_or] at h
      obtain ⟨token, tokens, rfl⟩ := ih h.2.2
      exact ⟨'~' :: token, tokens, rfl⟩
  | case3 rest ih =>
      simp only [badEscape_cons, not_or] at h
      obtain ⟨token, tokens, rfl⟩ := ih h.2.2
      exact ⟨'/' :: token, tokens, rfl⟩
  | case4 rest h0 h1 =>
      exfalso
      apply h
      refine badEscape_cons.mpr (.inl ⟨rfl, ?_, ?_⟩)
      · intro hhead
        obtain ⟨tail, rfl⟩ := List.head?_eq_some_iff.mp hhead
        exact h0 tail rfl
      · intro hhead
        obtain ⟨tail, rfl⟩ := List.head?_eq_some_iff.mp hhead
        exact h1 tail rfl
  | case5 c rest _ _ htilde ih =>
      rw [badEscape_cons, not_or] at h
      obtain ⟨token, tokens, rfl⟩ := ih h.2
      by_cases hslash : c = '/'
      · subst hslash
        exact ⟨[], token :: tokens, (encodePointer_cons token tokens).symm⟩
      · refine ⟨c :: token, tokens, ?_⟩
        rw [encodeToken_cons, if_neg htilde, if_neg hslash]
        rfl

theorem badEscape_snoc {c : Char} (hspace : Str.isWhitespace c = true) (text : Str) :
    BadEscape (text ++ [c]) ↔ BadEscape text := by
  have htilde : c ≠ '~' := fun h => absurd (h ▸ hspace) (by decide)
  have h0 : c ≠ '0' := fun h => absurd (h ▸ hspace) (by decide)
  have h1 : c ≠ '1' := fun h => absurd (h ▸ hspace) (by decide)
  induction text with
  | nil =>
      rw [List.nil_append, badEscape_cons]
      exact ⟨fun h => h.elim (fun h => absurd h.1 htilde) id, .inr⟩
  | cons d text ih =>
      simp only [List.cons_append, badEscape_cons, ih]
      cases text with
      | nil => simp [h0, h1]
      | cons e text => rfl

/-- Trimming leaves every escape. -/
theorem badEscape_trimEnd {text : Str} :
    BadEscape (Str.trimEndMatches Str.isWhitespace text) ↔ BadEscape text := by
  induction text using List.reverseRecOn with
  | nil => rfl
  | append_singleton text c ih =>
      rw [trimEnd_snoc]
      split_ifs with hspace
      · rw [ih, badEscape_snoc hspace]
      · rfl

/-! ## The result -/

theorem len_trimEnd_le (p : Char → Bool) (text : Str) :
    (Str.trimEndMatches p text).len ≤ text.len := by
  obtain ⟨rest, hrest⟩ := trimEndMatches_isPrefix p text
  conv_rhs => rw [← hrest]
  rw [Str.len, Str.len, List.map_append, List.sum_append]
  omega

theorem len_trim_le (text : Str) : text.trim.len ≤ text.len := by
  refine Nat.le_trans (len_trimEnd_le _ _) ?_
  have hsplit := List.takeWhile_append_dropWhile (p := Str.isWhitespace) (l := text)
  conv_rhs => rw [← hsplit]
  rw [Str.len, Str.len, List.map_append, List.sum_append, Str.trimStartMatches]
  omega

theorem compileRedactionPath_encodePointer {token : Str} {tokens : List Str}
    (hlen : (encodePointer (token :: tokens)).len ≤ 512) :
    compileRedactionPath (encodePointer (token :: tokens)) = .ok (token :: tokens) := by
  have hslash : ['/'].isPrefixOf (encodePointer (token :: tokens)) = true := rfl
  rw [compileRedactionPath, if_neg (by simp [hslash]; omega), encodePointer_cons]
  show List.mapM decodePointerSegment
    ((encodeToken token ++ encodePointer tokens).splitOn '/') = _
  rw [splitOn_encodePointer, mapM_decode]

theorem compileRedactionPaths_singleton {path : Str} (h : path.trim ≠ []) :
    compileRedactionPaths [path] =
      (compileRedactionPath path.trim).bind fun tokens => .ok [tokens] := by
  have hfilter : [path].filter (fun path => !path.trim.isEmpty) = [path] := by
    have hempty : path.trim.isEmpty = false := by simpa using h
    rw [List.filter_cons_of_pos (by simp [hempty])]
    rfl
  rw [compileRedactionPaths, if_neg (by simp), hfilter, List.mapM_cons]
  rfl

/-- A configured pointer is read back, but for the white space at its end. -/
theorem compileRedactionPaths_encodePointer {tokens : List Str} {token : Str}
    (hlen : (encodePointer (tokens ++ [token])).len ≤ 512) :
    compileRedactionPaths [encodePointer (tokens ++ [token])] =
      .ok [tokens ++ [Str.trimEndMatches Str.isWhitespace token]] := by
  obtain ⟨first, rest, hsplit⟩ :
      ∃ first rest, tokens ++ [Str.trimEndMatches Str.isWhitespace token] = first :: rest := by
    cases tokens with
    | nil => exact ⟨_, _, rfl⟩
    | cons first tokens => exact ⟨_, _, rfl⟩
  have htrim := trim_encodePointer tokens token
  rw [hsplit] at htrim
  have hne : Str.trim (encodePointer (tokens ++ [token])) ≠ [] := by
    rw [htrim, encodePointer_cons]
    exact List.cons_ne_nil _ _
  have hlen' : (encodePointer (first :: rest)).len ≤ 512 := by
    rw [← htrim]
    exact Nat.le_trans (len_trim_le _) hlen
  rw [compileRedactionPaths_singleton hne, htrim, compileRedactionPath_encodePointer hlen', hsplit]
  rfl

theorem not_badEscape_of_compiles {path : Str} {found : List (List Str)}
    (h : compileRedactionPaths [path] = .ok found) : ¬ BadEscape path.trim := by
  by_cases hempty : path.trim = []
  · rw [hempty]
    exact not_badEscape_nil
  rw [compileRedactionPaths_singleton hempty] at h
  obtain ⟨tokens, hpath, -⟩ := Except.bind_eq_ok.mp h
  unfold compileRedactionPath at hpath
  split_ifs at hpath with hrefused
  simp only [not_or, not_not] at hrefused
  obtain ⟨text, htext⟩ := List.isPrefixOf_iff_prefix.mp hrefused.2
  rw [← htext] at hpath ⊢
  have hpath : (text.splitOn '/').mapM decodePointerSegment = .ok tokens := hpath
  have hsegments := eq_map_encodeToken (fun s hs => not_mem_of_mem_splitOn hs) hpath
  have hjoined : ['/'].intercalate (text.splitOn '/') = text := List.intercalate_splitOn '/'
  rw [List.singleton_append, badEscape_cons, not_or]
  refine ⟨fun h => absurd h.1 (by decide), ?_⟩
  cases tokens with
  | nil => exact absurd hsegments (List.splitOn_ne_nil _ _)
  | cons token tokens =>
      rw [hsegments, intercalate_encode] at hjoined
      rw [← hjoined]
      exact not_badEscape_token (not_badEscape_pointer tokens)

/-- **Redaction pointers decode to what was written**, but for white space at the end of the last
token; and of the texts that start with a slash, those with a bad escape are refused. -/
theorem pointers_are_read_back :
    (∀ (tokens : List Str) (token : Str), (encodePointer (tokens ++ [token])).len ≤ 512 →
      compileRedactionPaths [encodePointer (tokens ++ [token])] =
        .ok [tokens ++ [Str.trimEndMatches Str.isWhitespace token]]) ∧
    ∀ path : Str, ['/'] <+: path → path.len ≤ 512 →
      ((∃ e, compileRedactionPaths [path] = .error e) ↔ BadEscape path) := by
  refine ⟨fun tokens token hlen => compileRedactionPaths_encodePointer hlen, ?_⟩
  rintro path ⟨text, rfl⟩ hlen
  by_cases hbad : BadEscape (['/'] ++ text)
  · refine iff_of_true ?_ hbad
    cases hcompile : compileRedactionPaths [['/'] ++ text] with
    | error e => exact ⟨e, rfl⟩
    | ok found =>
        exfalso
        have hstart : Str.trimStartMatches Str.isWhitespace (['/'] ++ text) = ['/'] ++ text := rfl
        rw [← badEscape_trimEnd, ← hstart] at hbad
        have hnot : ¬ BadEscape (Str.trim (['/'] ++ text)) := not_badEscape_of_compiles hcompile
        exact hnot hbad
  · refine iff_of_false ?_ hbad
    rw [List.singleton_append, badEscape_cons, not_or] at hbad
    obtain ⟨token, tokens, rfl⟩ := exists_tokens hbad.2
    obtain ⟨init, last, hsplit⟩ : ∃ init last, token :: tokens = init ++ [last] :=
      ⟨_, _, (List.dropLast_append_getLast (List.cons_ne_nil token tokens)).symm⟩
    have hpath : ['/'] ++ (encodeToken token ++ encodePointer tokens) =
        encodePointer (init ++ [last]) := by
      rw [← hsplit, encodePointer_cons]
      rfl
    rw [hpath] at hlen ⊢
    rw [compileRedactionPaths_encodePointer hlen]
    rintro ⟨e, he⟩
    exact absurd he (by simp)

/-- Escapes that look like escapes are read back. -/
theorem escaped_pointer_is_read_back :
    compileRedactionPaths ["/~01/a~1b/".toList] =
      .ok [[['~', '1'], ['a', '/', 'b'], []]] :=
  pointers_are_read_back.1 [['~', '1'], ['a', '/', 'b']] [] (by decide +kernel)

/-- White space at the end of the last token is not read back. -/
theorem trailing_blank_is_trimmed :
    (encodePointer [['a', ' ']]).len ≤ 512 ∧
      compileRedactionPaths [encodePointer [['a', ' ']]] = .ok [[['a']]] ∧
        [[['a']]] ≠ [[['a', ' ']]] := by
  refine ⟨by decide +kernel, by decide +kernel, by decide⟩

end SippinSoda
