import SippinSoda.Host
import Mathlib.Data.List.Perm.Basic

/-!
# Rules that overlap

A wildcard matches the names below its domain, so it is a suffix that starts with a dot. Two
suffixes of one name are suffixes of each other, which is all that `overlaps` has to decide.
-/

namespace SippinSoda

/-! ## Overlapping patterns -/

namespace HostPattern

theorem suffix_matches_iff {tail host : Str} :
    (suffix tail).matches host = true ↔ '.' :: tail <:+ host := by
  rw [HostPattern.matches, Bool.and_eq_true, Bool.and_eq_true, decide_eq_true_eq, beq_iff_eq,
    List.isSuffixOf_iff_suffix]
  constructor
  · rintro ⟨⟨hlength, before, rfl⟩, hdot⟩
    rw [List.length_append] at hlength
    obtain ⟨init, last, rfl⟩ : ∃ init last, before = init ++ [last] :=
      ⟨_, _, (List.dropLast_append_getLast (by rintro rfl; simp at hlength)).symm⟩
    have hlast : last = '.' := by
      have hindex : (init ++ [last] ++ tail).length - tail.length - 1 = init.length := by
        simp only [List.length_append, List.length_cons, List.length_nil]
        omega
      rw [hindex, List.append_assoc, List.getElem?_append_right (Nat.le_refl _)] at hdot
      simpa using hdot
    subst hlast
    exact ⟨init, by simp⟩
  · rintro ⟨before, rfl⟩
    refine ⟨⟨?_, ⟨before ++ ['.'], by simp⟩⟩, ?_⟩
    · simp only [List.length_append, List.length_cons]
      omega
    · have hindex : (before ++ '.' :: tail).length - tail.length - 1 = before.length := by
        simp only [List.length_append, List.length_cons]
        omega
      rw [hindex, List.getElem?_append_right (Nat.le_refl _)]
      simp

theorem exact_matches_iff {expected host : Str} :
    (exact expected).matches host = true ↔ host = expected := by
  rw [HostPattern.matches, beq_iff_eq]

/-- Of two wildcards that match one name, one is the other or lies below it. -/
theorem suffixes_overlap {left right host : Str} (hleft : '.' :: left <:+ host)
    (hright : '.' :: right <:+ host) :
    left = right ∨ '.' :: right <:+ left ∨ '.' :: left <:+ right := by
  have hbelow {a b : Str} (h : '.' :: a <:+ '.' :: b) : a = b ∨ '.' :: a <:+ b := by
    rcases List.suffix_cons_iff.mp h with heq | hsuffix
    · exact .inl (List.cons.inj heq).2
    · exact .inr hsuffix
  rcases List.suffix_or_suffix_of_suffix hleft hright with h | h
  · rcases hbelow h with rfl | h
    · exact .inl rfl
    · exact .inr (.inr h)
  · rcases hbelow h with rfl | h
    · exact .inl rfl
    · exact .inr (.inl h)

/-- **Two patterns overlap** exactly if a name matches both. -/
theorem overlaps_iff {a b : HostPattern} :
    a.overlaps b = true ↔ ∃ host, a.matches host = true ∧ b.matches host = true := by
  cases a with
  | exact left =>
      cases b with
      | exact right =>
          rw [overlaps, beq_iff_eq]
          simp only [exact_matches_iff]
          constructor
          · rintro rfl
            exact ⟨left, rfl, rfl⟩
          · rintro ⟨host, rfl, rfl⟩
            rfl
      | suffix tail =>
          rw [overlaps]
          simp only [exact_matches_iff, exists_eq_left]
  | suffix left =>
      cases b with
      | exact right =>
          rw [overlaps]
          simp only [exact_matches_iff, exists_eq_right]
      | suffix right =>
          rw [overlaps, Bool.or_eq_true, Bool.or_eq_true, beq_iff_eq, List.isSuffixOf_iff_suffix,
            List.isSuffixOf_iff_suffix]
          simp only [suffix_matches_iff]
          constructor
          · rintro ((rfl | hright) | hleft)
            · exact ⟨'.' :: left, List.suffix_rfl, List.suffix_rfl⟩
            · exact ⟨'.' :: left, List.suffix_rfl, hright.trans (List.suffix_cons _ _)⟩
            · exact ⟨'.' :: right, hleft.trans (List.suffix_cons _ _), List.suffix_rfl⟩
          · rintro ⟨host, hleft, hright⟩
            rcases suffixes_overlap hleft hright with h | h | h
            · exact .inl (.inl h)
            · exact .inl (.inr h)
            · exact .inr h

theorem overlaps_comm (a b : HostPattern) : a.overlaps b = b.overlaps a := by
  rw [Bool.eq_iff_iff, overlaps_iff, overlaps_iff]
  exact exists_congr fun host => And.comm

end HostPattern

/-! ## Compiled lists -/

/-- A rule of the list matches the host. -/
def MatchesRule (rules : List Str) (host : Str) : Prop :=
  ∃ rule ∈ rules, ∃ pattern, HostPattern.compile rule = .ok pattern ∧ pattern.matches host = true

/-- The patterns of a list are those of its rules. -/
theorem mem_of_mapM_compile {rules : List Str} {patterns : List HostPattern}
    (h : rules.mapM HostPattern.compile = .ok patterns) (pattern : HostPattern) :
    pattern ∈ patterns ↔ ∃ rule ∈ rules, HostPattern.compile rule = .ok pattern := by
  induction rules generalizing patterns with
  | nil =>
      obtain rfl := Except.ok.inj h
      simp
  | cons rule rules ih =>
      rw [List.mapM_cons] at h
      obtain ⟨first, hfirst, h⟩ := Except.bind_eq_ok.mp h
      obtain ⟨rest, hrest, h⟩ := Except.bind_eq_ok.mp h
      obtain rfl := Except.ok.inj h
      rw [List.mem_cons, ih hrest]
      simp only [List.mem_cons, exists_eq_or_imp, hfirst, Except.ok.injEq, eq_comm (a := pattern)]

theorem mapM_compile_of_valid {rules : List Str}
    (h : ∀ rule ∈ rules, ∃ pattern, HostPattern.compile rule = .ok pattern) :
    ∃ patterns, rules.mapM HostPattern.compile = .ok patterns := by
  induction rules with
  | nil => exact ⟨[], rfl⟩
  | cons rule rules ih =>
      obtain ⟨first, hfirst⟩ := h rule List.mem_cons_self
      obtain ⟨rest, hrest⟩ := ih fun rule hrule => h rule (List.mem_cons_of_mem _ hrule)
      refine ⟨first :: rest, ?_⟩
      rw [List.mapM_cons]
      exact Except.bind_eq_ok.mpr ⟨first, hfirst, Except.bind_eq_ok.mpr ⟨rest, hrest, rfl⟩⟩

theorem valid_of_mapM_compile {rules : List Str} {patterns : List HostPattern}
    (h : rules.mapM HostPattern.compile = .ok patterns) {rule : Str} (hrule : rule ∈ rules) :
    ∃ pattern, HostPattern.compile rule = .ok pattern := by
  induction rules generalizing patterns with
  | nil => exact absurd hrule List.not_mem_nil
  | cons first rules ih =>
      rw [List.mapM_cons] at h
      obtain ⟨pattern, hfirst, h⟩ := Except.bind_eq_ok.mp h
      obtain ⟨rest, hrest, -⟩ := Except.bind_eq_ok.mp h
      rcases List.mem_cons.mp hrule with rfl | hrule
      · exact ⟨pattern, hfirst⟩
      · exact ih hrest hrule

theorem matchesRule_iff {rules : List Str} {patterns : List HostPattern}
    (h : rules.mapM HostPattern.compile = .ok patterns) {host : Str} :
    MatchesRule rules host ↔ patterns.any (fun pattern => pattern.matches host) = true := by
  rw [List.any_eq_true]
  constructor
  · rintro ⟨rule, hrule, pattern, hcompile, hmatches⟩
    exact ⟨pattern, (mem_of_mapM_compile h pattern).mpr ⟨rule, hrule, hcompile⟩, hmatches⟩
  · rintro ⟨pattern, hpattern, hmatches⟩
    obtain ⟨rule, hrule, hcompile⟩ := (mem_of_mapM_compile h pattern).mp hpattern
    exact ⟨rule, hrule, pattern, hcompile, hmatches⟩

namespace DestinationClassifier

/-- What `compile` checks. -/
structure Compiles (development production : List Str) (classifier : DestinationClassifier) :
    Prop where
  developmentLength : development.length ≤ 128
  productionLength : production.length ≤ 128
  development : development.mapM HostPattern.compile = .ok classifier.development
  production : production.mapM HostPattern.compile = .ok classifier.production
  disjoint : ∀ dev ∈ classifier.development, ∀ prod ∈ classifier.production,
    dev.overlaps prod = false

theorem compile_eq_ok {development production : List Str} {classifier : DestinationClassifier} :
    compile development production = .ok classifier ↔
      Compiles development production classifier := by
  obtain ⟨tooMany, overlap, hcompile⟩ : ∃ tooMany overlap, compile development production =
      if (128 < development.length || 128 < production.length) = true then .error tooMany
      else development.mapM HostPattern.compile >>= fun devs =>
        production.mapM HostPattern.compile >>= fun prods =>
          if (devs.any fun dev => prods.any fun prod => dev.overlaps prod) = true then
            .error overlap
          else .ok ⟨devs, prods⟩ := ⟨_, _, rfl⟩
  rw [hcompile]
  constructor
  · intro h
    split_ifs at h with hlength
    rw [Bool.or_eq_true, decide_eq_true_eq, decide_eq_true_eq, not_or] at hlength
    obtain ⟨devs, hdevs, h⟩ := Except.bind_eq_ok.mp h
    obtain ⟨prods, hprods, h⟩ := Except.bind_eq_ok.mp h
    split_ifs at h with hoverlap
    obtain rfl := Except.ok.inj h
    refine ⟨by omega, by omega, hdevs, hprods, fun dev hdev prod hprod => ?_⟩
    by_contra htrue
    rw [Bool.not_eq_false] at htrue
    exact hoverlap (List.any_eq_true.mpr ⟨dev, hdev, List.any_eq_true.mpr ⟨prod, hprod, htrue⟩⟩)
  · intro h
    have hdevs := h.developmentLength
    have hprods := h.productionLength
    rw [if_neg (by simp; omega), h.development, h.production]
    show (if _ then _ else _) = _
    rw [if_neg]
    intro hany
    obtain ⟨dev, hdev, hany⟩ := List.any_eq_true.mp hany
    obtain ⟨prod, hprod, hoverlap⟩ := List.any_eq_true.mp hany
    rw [h.disjoint dev hdev prod hprod] at hoverlap
    exact absurd hoverlap Bool.false_ne_true

/-- No name matches rules of both lists that are accepted together. -/
theorem Compiles.not_both {development production : List Str}
    {classifier : DestinationClassifier} (h : Compiles development production classifier)
    (host : Str) : ¬ (MatchesRule development host ∧ MatchesRule production host) := by
  rintro ⟨hdev, hprod⟩
  rw [matchesRule_iff h.development, List.any_eq_true] at hdev
  rw [matchesRule_iff h.production, List.any_eq_true] at hprod
  obtain ⟨dev, hdev, hmatches⟩ := hdev
  obtain ⟨prod, hprod, hmatches'⟩ := hprod
  have hoverlap := HostPattern.overlaps_iff.mpr ⟨host, hmatches, hmatches'⟩
  rw [h.disjoint dev hdev prod hprod] at hoverlap
  exact absurd hoverlap Bool.false_ne_true

/-- Valid rules are accepted together exactly if no name matches rules of both lists. -/
theorem compiles_iff {development production : List Str} (hdevs : development.length ≤ 128)
    (hprods : production.length ≤ 128)
    (hvalid : ∀ rule ∈ development ++ production, ∃ pattern,
      HostPattern.compile rule = .ok pattern) :
    (∃ classifier, Compiles development production classifier) ↔
      ∀ host, ¬ (MatchesRule development host ∧ MatchesRule production host) := by
  constructor
  · rintro ⟨classifier, h⟩
    exact h.not_both
  · intro h
    obtain ⟨devs, hdev⟩ := mapM_compile_of_valid fun rule hrule =>
      hvalid rule (List.mem_append_left _ hrule)
    obtain ⟨prods, hprod⟩ := mapM_compile_of_valid fun rule hrule =>
      hvalid rule (List.mem_append_right _ hrule)
    refine ⟨⟨devs, prods⟩, hdevs, hprods, hdev, hprod, fun dev hmem prod hmem' => ?_⟩
    by_contra hoverlap
    rw [Bool.not_eq_false, HostPattern.overlaps_iff] at hoverlap
    obtain ⟨host, hmatches, hmatches'⟩ := hoverlap
    apply h host
    rw [matchesRule_iff hdev, matchesRule_iff hprod]
    exact ⟨List.any_eq_true.mpr ⟨dev, hmem, hmatches⟩,
      List.any_eq_true.mpr ⟨prod, hmem', hmatches'⟩⟩

/-- The class depends on which rules match, not on their order. -/
theorem Compiles.perm {development production development' production' : List Str}
    {classifier : DestinationClassifier} (h : Compiles development production classifier)
    (hdev : development.Perm development') (hprod : production.Perm production') :
    ∃ classifier', Compiles development' production' classifier' ∧
      ∀ host, classifier'.classify host = classifier.classify host := by
  have hmatches {rules rules' : List Str} (hperm : rules.Perm rules') (host : Str) :
      MatchesRule rules' host ↔ MatchesRule rules host := by
    unfold MatchesRule
    simp only [hperm.mem_iff]
  obtain ⟨classifier', h'⟩ := (compiles_iff (hdev.length_eq ▸ h.developmentLength)
      (hprod.length_eq ▸ h.productionLength) (fun rule hrule => by
        rcases List.mem_append.mp hrule with hrule | hrule
        · exact valid_of_mapM_compile h.development (hdev.mem_iff.mpr hrule)
        · exact valid_of_mapM_compile h.production (hprod.mem_iff.mpr hrule))).mpr fun host hboth =>
    h.not_both host ⟨(hmatches hdev host).mp hboth.1, (hmatches hprod host).mp hboth.2⟩
  refine ⟨classifier', h', fun host => ?_⟩
  have hsame {rules rules' : List Str} {patterns patterns' : List HostPattern}
      (hperm : rules.Perm rules') (hpatterns : rules.mapM HostPattern.compile = .ok patterns)
      (hpatterns' : rules'.mapM HostPattern.compile = .ok patterns') (host : Str) :
      patterns'.any (fun pattern => pattern.matches host) =
        patterns.any (fun pattern => pattern.matches host) := by
    rw [Bool.eq_iff_iff, ← matchesRule_iff hpatterns, ← matchesRule_iff hpatterns']
    exact hmatches hperm host
  rw [classify, classify, hsame hdev h.development h'.development,
    hsame hprod h.production h'.production]

end DestinationClassifier

/-! ## Spellings of a host -/

/-- The code of a character in lower case. -/
theorem toNat_lowerAscii (c : Char) : (Str.lowerAscii c).toNat =
    if 65 ≤ c.toNat ∧ c.toNat ≤ 90 then c.toNat + 32 else c.toNat := by
  have hletters : ∀ n < 26, (Char.ofNat (n + 65 + 32)).toNat = n + 65 + 32 := by decide
  have hcase : ('A' ≤ c ∧ c ≤ 'Z') ↔ 65 ≤ c.toNat ∧ c.toNat ≤ 90 := by
    rw [Char.le_def, Char.le_def, UInt32.le_iff_toNat_le, UInt32.le_iff_toNat_le]
    rfl
  unfold Str.lowerAscii
  by_cases h : 65 ≤ c.toNat ∧ c.toNat ≤ 90
  · rw [if_pos (hcase.mpr h), if_pos h]
    have hletter := hletters (c.toNat - 65) (by omega)
    rwa [Nat.sub_add_cancel h.1] at hletter
  · rw [if_neg (fun hupper => h (hcase.mp hupper)), if_neg h]

/-- Only letters change their case. -/
theorem lowerAscii_beq {d : Char} (hd : d.toNat < 65 ∨ 90 < d.toNat ∧ d.toNat < 97 ∨ 122 < d.toNat)
    (c : Char) : (Str.lowerAscii c == d) = (c == d) := by
  have hcode := toNat_lowerAscii c
  rw [Bool.eq_iff_iff, beq_iff_eq, beq_iff_eq]
  constructor
  · rintro rfl
    apply Char.toNat_inj.mp
    split_ifs at hcode <;> omega
  · rintro rfl
    apply Char.toNat_inj.mp
    rw [hcode, if_neg (by omega)]

theorem lowerAscii_idem (c : Char) : Str.lowerAscii (Str.lowerAscii c) = Str.lowerAscii c := by
  have hcode := toNat_lowerAscii c
  have htwice := toNat_lowerAscii (Str.lowerAscii c)
  rw [if_neg] at htwice
  · exact Char.toNat_inj.mp htwice
  · by_cases h : 65 ≤ c.toNat ∧ c.toNat ≤ 90
    · rw [if_pos h] at hcode
      omega
    · rw [if_neg h] at hcode
      rwa [hcode]

theorem toAsciiLowercase_idem (s : Str) :
    Str.toAsciiLowercase (Str.toAsciiLowercase s) = Str.toAsciiLowercase s := by
  unfold Str.toAsciiLowercase
  rw [List.map_map]
  exact List.map_congr_left fun c _ => lowerAscii_idem c

theorem isWhitespace_lowerAscii (c : Char) :
    Str.isWhitespace (Str.lowerAscii c) = Str.isWhitespace c := by
  simp only [Str.isWhitespace, toNat_lowerAscii]
  split_ifs with h
  · rw [Bool.eq_iff_iff]
    simp only [Bool.or_eq_true, Bool.and_eq_true, decide_eq_true_eq, beq_iff_eq]
    omega
  · rfl

theorem trimStart_lower {p : Char → Bool} (hp : ∀ c, p (Str.lowerAscii c) = p c) (s : Str) :
    Str.trimStartMatches p (Str.toAsciiLowercase s) =
      Str.toAsciiLowercase (Str.trimStartMatches p s) := by
  have hsame : p ∘ Str.lowerAscii = p := funext hp
  rw [Str.trimStartMatches, Str.toAsciiLowercase, List.dropWhile_map, hsame]
  rfl

theorem trimEnd_lower {p : Char → Bool} (hp : ∀ c, p (Str.lowerAscii c) = p c) (s : Str) :
    Str.trimEndMatches p (Str.toAsciiLowercase s) =
      Str.toAsciiLowercase (Str.trimEndMatches p s) := by
  have hsame : p ∘ Str.lowerAscii = p := funext hp
  rw [Str.trimEndMatches, Str.toAsciiLowercase, ← List.map_reverse, List.dropWhile_map, hsame,
    ← List.map_reverse]
  rfl

/-- The case of the letters is lost in what `classify` compares. -/
theorem classifiedHost_lower (host : Str) : classifiedHost host =
    Str.trimEndMatches (· == '.') (trimBrackets (Str.trim (Str.toAsciiLowercase host))) := by
  rw [Str.trim, trimStart_lower isWhitespace_lowerAscii, trimEnd_lower isWhitespace_lowerAscii,
    trimBrackets, trimStart_lower (lowerAscii_beq (by decide)),
    trimEnd_lower (lowerAscii_beq (by decide)), trimEnd_lower (lowerAscii_beq (by decide))]
  rfl

/-- A host with neither white space nor brackets. -/
def BareHost (host : Str) : Prop := ∀ c ∈ host, Str.isWhitespace c = false ∧ c ≠ '[' ∧ c ≠ ']'

theorem trimBrackets_of_bare {host : Str} (h : BareHost host) : trimBrackets host = host := by
  rw [trimBrackets, Str.trimStartMatches_eq_self, Str.trimEndMatches_eq_self]
  · exact fun c hc => beq_false_of_ne (h c (List.mem_of_mem_getLast? hc)).2.2
  · exact fun c hc => beq_false_of_ne (h c (List.mem_of_mem_head? hc)).2.1

theorem classifiedHost_of_bare {host : Str} (h : BareHost host) : classifiedHost host =
    Str.toAsciiLowercase (Str.trimEndMatches (· == '.') host) := by
  rw [classifiedHost, Str.trim_eq_self fun c hc => (h c hc).1, trimBrackets_of_bare h]

theorem classifiedHost_dot {host : Str} (h : BareHost host) :
    classifiedHost (host ++ ['.']) = classifiedHost host := by
  have hdotted : BareHost (host ++ ['.']) := by
    intro c hc
    rcases List.mem_append.mp hc with hc | hc
    · exact h c hc
    · obtain rfl := List.mem_singleton.mp hc
      decide
  rw [classifiedHost_of_bare hdotted, classifiedHost_of_bare h, Str.trimEndMatches,
    List.reverse_append]
  rfl

theorem classifiedHost_brackets {host : Str} (h : BareHost host) :
    classifiedHost ('[' :: host ++ [']']) = classifiedHost host := by
  have hspace : ∀ c ∈ '[' :: host ++ [']'], Str.isWhitespace c = false := by
    intro c hc
    rcases List.mem_append.mp hc with hc | hc
    · rcases List.mem_cons.mp hc with rfl | hc
      · decide
      · exact (h c hc).1
    · obtain rfl := List.mem_singleton.mp hc
      decide
  have hbrackets : trimBrackets ('[' :: host ++ [']']) = host := by
    have hstart : Str.trimStartMatches (· == '[') (host ++ [']']) = host ++ [']'] := by
      apply Str.trimStartMatches_eq_self
      intro c hc
      have hmem := List.mem_of_mem_head? hc
      rcases List.mem_append.mp hmem with hmem | hmem
      · exact beq_false_of_ne (h c hmem).2.1
      · obtain rfl := List.mem_singleton.mp hmem
        decide
    have hend : Str.trimEndMatches (· == ']') host = host :=
      Str.trimEndMatches_eq_self fun c hc =>
        beq_false_of_ne (h c (List.mem_of_mem_getLast? hc)).2.2
    show Str.trimEndMatches (· == ']') (Str.trimStartMatches (· == '[') (host ++ [']'])) = host
    rw [hstart, Str.trimEndMatches, List.reverse_append]
    exact hend
  rw [classifiedHost_of_bare h, classifiedHost, Str.trim_eq_self hspace, hbrackets]

/-! ## The result -/

/-- **The overlap check is exact**, and leaves every host one class, whatever the order of the
rules and the spelling of the host. -/
theorem overlap_check_is_exact :
    (∀ a b : HostPattern,
      (a.overlaps b = true ↔ ∃ host, a.matches host = true ∧ b.matches host = true) ∧
        a.overlaps b = b.overlaps a) ∧
    (∀ development production : List Str, development.length ≤ 128 → production.length ≤ 128 →
      (∀ rule ∈ development ++ production, ∃ pattern, HostPattern.compile rule = .ok pattern) →
      ((∃ classifier, DestinationClassifier.compile development production = .ok classifier) ↔
        ∀ host, ¬ (MatchesRule development host ∧ MatchesRule production host))) ∧
    ∀ (development production : List Str) (classifier : DestinationClassifier),
      DestinationClassifier.compile development production = .ok classifier →
      (∀ host, ¬ (MatchesRule development host ∧ MatchesRule production host)) ∧
      (∀ development' production' : List Str, development.Perm development' →
        production.Perm production' → ∃ classifier',
          DestinationClassifier.compile development' production' = .ok classifier' ∧
            ∀ host, classifier'.classify host = classifier.classify host) ∧
      ∀ host, BareHost host →
        (∀ host', Str.toAsciiLowercase host' = Str.toAsciiLowercase host →
          classifier.classify host' = classifier.classify host) ∧
        classifier.classify (host ++ ['.']) = classifier.classify host ∧
        classifier.classify ('[' :: host ++ [']']) = classifier.classify host := by
  refine ⟨fun a b => ⟨HostPattern.overlaps_iff, HostPattern.overlaps_comm a b⟩, ?_, ?_⟩
  · intro development production hdevs hprods hvalid
    rw [← DestinationClassifier.compiles_iff hdevs hprods hvalid]
    exact exists_congr fun classifier => DestinationClassifier.compile_eq_ok
  · intro development production classifier hcompile
    have h := DestinationClassifier.compile_eq_ok.mp hcompile
    refine ⟨h.not_both, ?_, ?_⟩
    · intro development' production' hdev hprod
      obtain ⟨classifier', h', hclassify⟩ := h.perm hdev hprod
      exact ⟨classifier', DestinationClassifier.compile_eq_ok.mpr h', hclassify⟩
    · intro host hbare
      have hclassify {host' : Str} (hsame : classifiedHost host' = classifiedHost host) :
          classifier.classify host' = classifier.classify host := by
        rw [DestinationClassifier.classify, DestinationClassifier.classify, hsame]
      refine ⟨fun host' hcase => hclassify ?_, hclassify (classifiedHost_dot hbare),
        hclassify (classifiedHost_brackets hbare)⟩
      rw [classifiedHost_lower, classifiedHost_lower host, hcase]

/-- A name below a wildcard's domain is Development in brackets too. -/
theorem bracketed_host_is_classified :
    ∃ classifier, DestinationClassifier.compile ["*.example.test".toList]
        ["payments.example".toList] = .ok classifier ∧
      classifier.classify "[api.example.test]".toList = .development := by
  have hcompile : DestinationClassifier.compile ["*.example.test".toList]
      ["payments.example".toList] =
        .ok ⟨[.suffix "example.test".toList], [.exact "payments.example".toList]⟩ := by
    decide +kernel
  have hall : "api.example.test".toList.all
      (fun c => !Str.isWhitespace c && (c != '[' && c != ']')) = true := by
    decide +kernel
  have hbare : BareHost "api.example.test".toList := by
    intro c hc
    simpa using List.all_eq_true.mp hall c hc
  refine ⟨_, hcompile, ?_⟩
  have hvariants := (overlap_check_is_exact.2.2 _ _ _ hcompile).2.2 _ hbare
  exact hvariants.2.2.trans (by decide +kernel)

end SippinSoda
