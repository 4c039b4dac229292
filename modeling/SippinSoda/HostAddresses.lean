import SippinSoda.HostRules

/-!
# Addresses in rules

A rule and a host are compared as texts. An IPv4 address has one text (no octet has a leading
zero), so for these the comparison is one of addresses; an IPv6 address has several.
-/

namespace SippinSoda

/-! ## The text of an IPv4 address -/

/-- A decimal digit and its value. -/
theorem toDigit_ten {c : Char} (h : (toDigit 10 c).isSome = true) :
    48 ≤ c.toNat ∧ c.toNat ≤ 57 ∧ (toDigit 10 c).getD 0 = c.toNat - 48 := by
  have hcase : ('0' ≤ c ∧ c ≤ '9') ↔ 48 ≤ c.toNat ∧ c.toNat ≤ 57 := by
    rw [Char.le_def, Char.le_def, UInt32.le_iff_toNat_le, UInt32.le_iff_toNat_le]
    rfl
  unfold toDigit at h ⊢
  by_cases hdigit : 48 ≤ c.toNat ∧ c.toNat ≤ 57
  · have hlt : c.toNat - 48 < 10 := by omega
    refine ⟨hdigit.1, hdigit.2, ?_⟩
    dsimp only
    rw [if_pos (hcase.mpr hdigit)]
    show (Option.filter _ (some (c.toNat - 48))).getD 0 = _
    rw [Option.filter_some, if_pos (decide_eq_true hlt)]
    rfl
  · exfalso
    dsimp only at h
    rw [if_neg (fun hle => hdigit (hcase.mp hle))] at h
    split_ifs at h with hlower hupper
    · rw [Option.filter_some, if_neg (by simp)] at h
      exact absurd h Bool.false_ne_true
    · rw [Option.filter_some, if_neg (by simp)] at h
      exact absurd h Bool.false_ne_true
    · exact absurd h Bool.false_ne_true

/-- The digits of an octet: at most three, and no zero before another. -/
structure OctetText (digits : Str) : Prop where
  digit : ∀ c ∈ digits, (toDigit 10 c).isSome = true
  nonempty : digits ≠ []
  length : digits.length ≤ 3
  leading : digits.head? = some '0' → digits.length ≤ 1

/-- The value of the digits of an octet. -/
def octetValue (digits : Str) : Nat :=
  digits.foldl (fun n c => n * 10 + (toDigit 10 c).getD 0) 0

/-- The octet in terms of the codes of its digits. -/
theorem OctetText.cases {digits : Str} (h : OctetText digits) :
    (∃ a, digits = [a] ∧ 48 ≤ a.toNat ∧ a.toNat ≤ 57 ∧ octetValue digits = a.toNat - 48) ∨
    (∃ a b, digits = [a, b] ∧ 48 < a.toNat ∧ a.toNat ≤ 57 ∧ 48 ≤ b.toNat ∧ b.toNat ≤ 57 ∧
      octetValue digits = (a.toNat - 48) * 10 + (b.toNat - 48)) ∨
    ∃ a b c, digits = [a, b, c] ∧ 48 < a.toNat ∧ a.toNat ≤ 57 ∧ 48 ≤ b.toNat ∧ b.toNat ≤ 57 ∧
      48 ≤ c.toNat ∧ c.toNat ≤ 57 ∧
      octetValue digits = ((a.toNat - 48) * 10 + (b.toNat - 48)) * 10 + (c.toNat - 48) := by
  have hleading (a : Char) (rest : Str) (hdigits : digits = a :: rest) (hrest : rest ≠ [])
      (hge : 48 ≤ a.toNat) : 48 < a.toNat := by
    by_contra hle
    have hzero : a = '0' := Char.toNat_inj.mp (show a.toNat = 48 by omega)
    have hlength := h.leading (by rw [hdigits, hzero]; rfl)
    rw [hdigits, List.length_cons] at hlength
    exact hrest (List.length_eq_zero_iff.mp (by omega))
  rcases digits with _ | ⟨a, _ | ⟨b, _ | ⟨c, _ | ⟨d, rest⟩⟩⟩⟩
  · exact absurd rfl h.nonempty
  · obtain ⟨ha, ha', hval⟩ := toDigit_ten (h.digit a (by simp))
    refine .inl ⟨a, rfl, ha, ha', ?_⟩
    simp [octetValue, hval]
  · obtain ⟨ha, ha', hval⟩ := toDigit_ten (h.digit a (by simp))
    obtain ⟨hb, hb', hval'⟩ := toDigit_ten (h.digit b (by simp))
    refine .inr (.inl ⟨a, b, rfl, hleading a _ rfl (by simp) ha, ha', hb, hb', ?_⟩)
    simp [octetValue, hval, hval']
  · obtain ⟨ha, ha', hval⟩ := toDigit_ten (h.digit a (by simp))
    obtain ⟨hb, hb', hval'⟩ := toDigit_ten (h.digit b (by simp))
    obtain ⟨hc, hc', hval''⟩ := toDigit_ten (h.digit c (by simp))
    refine .inr (.inr ⟨a, b, c, rfl, hleading a _ rfl (by simp) ha, ha', hb, hb', hc, hc', ?_⟩)
    simp [octetValue, hval, hval', hval'']
  · have hlength := h.length
    simp only [List.length_cons] at hlength
    omega

/-- An octet has one text. -/
theorem octetText_inj {x y : Str} (hx : OctetText x) (hy : OctetText y)
    (h : octetValue x = octetValue y) : x = y := by
  rcases hx.cases with ⟨a, rfl, _, _, hvalue⟩ | ⟨a, b, rfl, _, _, _, _, hvalue⟩ |
    ⟨a, b, c, rfl, _, _, _, _, _, _, hvalue⟩ <;>
  rcases hy.cases with ⟨a', rfl, _, _, hvalue'⟩ | ⟨a', b', rfl, _, _, _, _, hvalue'⟩ |
    ⟨a', b', c', rfl, _, _, _, _, _, _, hvalue'⟩ <;>
  rw [hvalue, hvalue'] at h
  · obtain rfl : a = a' := Char.toNat_inj.mp (by omega)
    rfl
  · omega
  · omega
  · omega
  · obtain rfl : a = a' := Char.toNat_inj.mp (by omega)
    obtain rfl : b = b' := Char.toNat_inj.mp (by omega)
    rfl
  · omega
  · omega
  · omega
  · obtain rfl : a = a' := Char.toNat_inj.mp (by omega)
    obtain rfl : b = b' := Char.toNat_inj.mp (by omega)
    obtain rfl : c = c' := Char.toNat_inj.mp (by omega)
    rfl

theorem readNumber_octet {s rest : Str} {value : Nat}
    (h : readNumber 10 3 256 false s = some (value, rest)) :
    ∃ digits, OctetText digits ∧ value = octetValue digits ∧ s = digits ++ rest := by
  have hsplit := List.takeWhile_append_dropWhile (p := fun c => (toDigit 10 c).isSome) (l := s)
  have hdigit : ∀ c ∈ s.takeWhile (fun c => (toDigit 10 c).isSome), (toDigit 10 c).isSome = true :=
    fun c hc => List.mem_takeWhile_imp (p := fun c => (toDigit 10 c).isSome) hc
  unfold readNumber at h
  dsimp only at h
  generalize s.takeWhile (fun c => (toDigit 10 c).isSome) = digits at h hsplit hdigit
  split_ifs at h with hbad
  obtain ⟨rfl, rfl⟩ := Prod.mk.inj (Option.some.inj h)
  simp only [Bool.or_eq_true, Bool.and_eq_true, decide_eq_true_eq, beq_iff_eq, not_or,
    List.isEmpty_iff, Bool.not_false, true_and, not_and, not_lt] at hbad
  obtain ⟨⟨⟨hnonempty, hlength⟩, -⟩, hleading⟩ := hbad
  refine ⟨digits, ⟨hdigit, hnonempty, hlength, hleading⟩, rfl, ?_⟩
  rw [← hsplit, List.drop_left]

/-- Two texts whose first octets are the same start with one text. -/
theorem readNumber_inj {s s' rest rest' : Str} {value : Nat}
    (h : readNumber 10 3 256 false s = some (value, rest))
    (h' : readNumber 10 3 256 false s' = some (value, rest')) :
    ∃ text, s = text ++ rest ∧ s' = text ++ rest' := by
  obtain ⟨digits, hdigits, rfl, hs⟩ := readNumber_octet h
  obtain ⟨digits', hdigits', hvalue, hs'⟩ := readNumber_octet h'
  obtain rfl := octetText_inj hdigits hdigits' hvalue
  exact ⟨digits, hs, hs'⟩

theorem readSeparator_eq {separator : Char} {index : Nat} {s rest : Str}
    (h : readSeparator separator index s = some rest) :
    s = (if index = 0 then [] else [separator]) ++ rest := by
  unfold readSeparator at h
  split_ifs at h with hindex
  · rw [if_pos hindex]
    exact Option.some.inj h
  · rw [if_neg hindex]
    cases s with
    | nil => exact absurd h (by simp)
    | cons c s =>
        dsimp only at h
        split_ifs at h with hc
        obtain rfl := Option.some.inj h
        rw [hc]
        rfl

theorem readOctets_inj {count index : Nat} {s s' rest rest' : Str} {octets : List Nat}
    (h : readOctets index count s = some (octets, rest))
    (h' : readOctets index count s' = some (octets, rest')) :
    ∃ text, s = text ++ rest ∧ s' = text ++ rest' := by
  induction count generalizing index s s' octets with
  | zero =>
      obtain ⟨-, rfl⟩ := Prod.mk.inj (Option.some.inj h)
      obtain ⟨-, rfl⟩ := Prod.mk.inj (Option.some.inj h')
      exact ⟨[], rfl, rfl⟩
  | succ count ih =>
      obtain ⟨t, ht, h⟩ := Option.bind_eq_some_iff.mp h
      obtain ⟨⟨octet, u⟩, hu, h⟩ := Option.bind_eq_some_iff.mp h
      obtain ⟨⟨more, v⟩, hv, h⟩ := Option.bind_eq_some_iff.mp h
      obtain ⟨rfl, rfl⟩ := Prod.mk.inj (Option.some.inj h)
      obtain ⟨t', ht', h'⟩ := Option.bind_eq_some_iff.mp h'
      obtain ⟨⟨octet', u'⟩, hu', h'⟩ := Option.bind_eq_some_iff.mp h'
      obtain ⟨⟨more', v'⟩, hv', h'⟩ := Option.bind_eq_some_iff.mp h'
      obtain ⟨hoctets, rfl⟩ := Prod.mk.inj (Option.some.inj h')
      obtain ⟨rfl, rfl⟩ := List.cons.inj hoctets
      obtain ⟨first, rfl, rfl⟩ := readNumber_inj hu hu'
      obtain ⟨others, rfl, rfl⟩ := ih hv hv'
      rw [readSeparator_eq ht, readSeparator_eq ht']
      exact ⟨(if index = 0 then [] else ['.']) ++ (first ++ others), by simp, by simp⟩

/-- **An IPv4 address has one text.** -/
theorem parseIpAddr_v4_inj {s s' : Str} {octets : List Nat}
    (h : parseIpAddr s = some (.v4 octets)) (h' : parseIpAddr s' = some (.v4 octets)) :
    s = s' := by
  have hread {t : Str} (ht : parseIpAddr t = some (.v4 octets)) :
      readOctets 0 4 t = some (octets, []) := by
    unfold parseIpAddr at ht
    split at ht
    · next octets' rest hv4 =>
      split_ifs at ht with hrest
      obtain rfl := IpAddr.v4.inj (Option.some.inj ht)
      rw [List.isEmpty_iff.mp hrest] at hv4
      exact hv4
    · split at ht
      · split_ifs at ht
        exact absurd (Option.some.inj ht) IpAddr.noConfusion
      · exact absurd ht (by simp)
  obtain ⟨text, rfl, rfl⟩ := readOctets_inj (hread h) (hread h')
  rfl

/-! ## Addresses in lower case -/

theorem toDigit_lower (radix : Nat) (c : Char) :
    toDigit radix (Str.lowerAscii c) = toDigit radix c := by
  have hle (a b : Char) : a ≤ b ↔ a.toNat ≤ b.toNat := by
    rw [Char.le_def, UInt32.le_iff_toNat_le]
    rfl
  have hvalue (d : Char) : toDigit radix d =
      (if 48 ≤ d.toNat ∧ d.toNat ≤ 57 then some (d.toNat - 48)
        else if 97 ≤ d.toNat ∧ d.toNat ≤ 102 then some (d.toNat - 97 + 10)
        else if 65 ≤ d.toNat ∧ d.toNat ≤ 70 then some (d.toNat - 65 + 10)
        else none).filter (· < radix) := by
    unfold toDigit
    simp only [hle]
    rfl
  rw [hvalue, hvalue, toNat_lowerAscii]
  by_cases hupper : 65 ≤ c.toNat ∧ c.toNat ≤ 90
  · rw [if_pos hupper, if_neg (by omega), if_neg (c := 48 ≤ c.toNat ∧ _) (by omega),
      if_neg (c := 97 ≤ c.toNat ∧ _) (by omega)]
    by_cases hletter : c.toNat ≤ 70
    · rw [if_pos (by omega), if_pos (by omega), show c.toNat + 32 - 97 = c.toNat - 65 by omega]
    · rw [if_neg (by omega), if_neg (by omega), if_neg (by omega)]
  · rw [if_neg hupper]

theorem readNumber_lower (radix maxDigits bound : Nat) (zeroPrefix : Bool) (s : Str) :
    readNumber radix maxDigits bound zeroPrefix (Str.toAsciiLowercase s) =
      (readNumber radix maxDigits bound zeroPrefix s).map
        fun (value, rest) => (value, Str.toAsciiLowercase rest) := by
  have hdigit : (fun c => (toDigit radix c).isSome) ∘ Str.lowerAscii =
      fun c => (toDigit radix c).isSome := funext fun c => by simp [toDigit_lower]
  unfold readNumber Str.toAsciiLowercase
  rw [List.takeWhile_map, hdigit]
  generalize s.takeWhile (fun c => (toDigit radix c).isSome) = digits
  have hhead : ((digits.map Str.lowerAscii).head? == some '0') = (digits.head? == some '0') := by
    cases digits with
    | nil => rfl
    | cons c digits => exact lowerAscii_beq (by decide) c
  dsimp only
  rw [List.isEmpty_map, List.length_map, hhead, List.foldl_map]
  simp only [toDigit_lower]
  split_ifs
  · rfl
  · rw [← List.map_drop]
    rfl

theorem readSeparator_lower {separator : Char} (h : separator.toNat < 65) (index : Nat) (s : Str) :
    readSeparator separator index (Str.toAsciiLowercase s) =
      (readSeparator separator index s).map Str.toAsciiLowercase := by
  unfold readSeparator
  split_ifs
  · rfl
  · cases s with
    | nil => rfl
    | cons c s =>
        have hsame := lowerAscii_beq (.inl h) c
        rw [Bool.eq_iff_iff, beq_iff_eq, beq_iff_eq] at hsame
        show (if Str.lowerAscii c = separator then some (Str.toAsciiLowercase s) else none) = _
        simp only [hsame]
        split_ifs <;> rfl

theorem readOctets_lower (index count : Nat) (s : Str) :
    readOctets index count (Str.toAsciiLowercase s) =
      (readOctets index count s).map fun (octets, rest) => (octets, Str.toAsciiLowercase rest) := by
  induction count generalizing index s with
  | zero => rfl
  | succ count ih =>
      simp only [readOctets, readSeparator_lower (show '.'.toNat < 65 by decide)]
      cases readSeparator '.' index s with
      | none => rfl
      | some t =>
          simp only [Option.map_some, bind, Option.bind_some, readNumber_lower]
          cases readNumber 10 3 256 false t with
          | none => rfl
          | some found =>
              simp only [Option.map_some, Option.bind_some, ih]
              cases readOctets (index + 1) count found.2 <;> rfl

theorem readGroups_lower (index count : Nat) (s : Str) :
    readGroups index count (Str.toAsciiLowercase s) =
      ((readGroups index count s).1, (readGroups index count s).2.1,
        Str.toAsciiLowercase (readGroups index count s).2.2) := by
  induction count generalizing index s with
  | zero => rfl
  | succ count ih =>
      have hembedded : ((readSeparator ':' index (Str.toAsciiLowercase s)).bind readIpv4) =
          ((readSeparator ':' index s).bind readIpv4).map
            fun (octets, rest) => (octets, Str.toAsciiLowercase rest) := by
        rw [readSeparator_lower (show ':'.toNat < 65 by decide)]
        cases readSeparator ':' index s with
        | none => rfl
        | some t => exact readOctets_lower 0 4 t
      have hgroup : ((readSeparator ':' index (Str.toAsciiLowercase s)).bind
          (readNumber 16 4 65536 true)) =
          ((readSeparator ':' index s).bind (readNumber 16 4 65536 true)).map
            fun (value, rest) => (value, Str.toAsciiLowercase rest) := by
        rw [readSeparator_lower (show ':'.toNat < 65 by decide)]
        cases readSeparator ':' index s with
        | none => rfl
        | some t => exact readNumber_lower 16 4 65536 true t
      rw [readGroups, readGroups, hembedded, hgroup]
      generalize (readSeparator ':' index s).bind readIpv4 = embedded
      generalize (readSeparator ':' index s).bind (readNumber 16 4 65536 true) = group
      -- The address at the end has four octets or is none.
      cases group with
      | none =>
          by_cases hlast : count = 0
          · rw [if_pos hlast, if_pos hlast]
            rfl
          · rw [if_neg hlast, if_neg hlast]
            rcases embedded with _ | ⟨_ | ⟨a, _ | ⟨b, _ | ⟨c, _ | ⟨d, _ | ⟨e, octets⟩⟩⟩⟩⟩, rest⟩ <;> rfl
      | some found =>
          simp only [Option.map_some, ih]
          by_cases hlast : count = 0
          · rw [if_pos hlast, if_pos hlast]
          · rw [if_neg hlast, if_neg hlast]
            rcases embedded with _ | ⟨_ | ⟨a, _ | ⟨b, _ | ⟨c, _ | ⟨d, _ | ⟨e, octets⟩⟩⟩⟩⟩, rest⟩ <;> rfl

theorem readIpv6_lower (s : Str) : readIpv6 (Str.toAsciiLowercase s) =
    (readIpv6 s).map fun (groups, rest) => (groups, Str.toAsciiLowercase rest) := by
  unfold readIpv6
  rw [readGroups_lower]
  generalize readGroups 0 8 s = found
  obtain ⟨head, headV4, rest⟩ := found
  dsimp only
  split_ifs
  · rfl
  · rfl
  · have hcolon (c : Char) : Str.lowerAscii c = ':' ↔ c = ':' := by
      have hsame := lowerAscii_beq (d := ':') (by decide) c
      rwa [Bool.eq_iff_iff, beq_iff_eq, beq_iff_eq] at hsame
    by_cases hzeros : ∃ rest', rest = ':' :: ':' :: rest'
    · obtain ⟨rest', rfl⟩ := hzeros
      have htail := readGroups_lower 0 (8 - (head.length + 1)) rest'
      unfold Str.toAsciiLowercase at htail
      show some (head ++ _ ++ _, _) = some _
      rw [htail]
      rfl
    · have hzeros' : ¬ ∃ rest', Str.toAsciiLowercase rest = ':' :: ':' :: rest' := by
        rintro ⟨rest', hrest'⟩
        obtain ⟨c, t, rfl, hc, ht⟩ := List.map_eq_cons_iff.mp hrest'
        obtain ⟨d, t', rfl, hd, -⟩ := List.map_eq_cons_iff.mp ht
        exact hzeros ⟨t', by rw [(hcolon c).mp hc, (hcolon d).mp hd]⟩
      split
      · exact absurd ⟨_, by assumption⟩ hzeros'
      · split
        · exact absurd ⟨_, rfl⟩ hzeros
        · rfl

/-- The case of its digits is not part of an address. -/
theorem parseIpAddr_lower (s : Str) : parseIpAddr (Str.toAsciiLowercase s) = parseIpAddr s := by
  have hempty (rest : Str) : (Str.toAsciiLowercase rest).isEmpty = rest.isEmpty := List.isEmpty_map
  unfold parseIpAddr
  rw [show readIpv4 (Str.toAsciiLowercase s) = _ from readOctets_lower 0 4 s, readIpv6_lower]
  cases hv4 : readOctets 0 4 s with
  | some found =>
      simp only [readIpv4, hv4, Option.map_some, hempty]
  | none =>
      cases hv6 : readIpv6 s with
      | some found => simp only [readIpv4, hv4, Option.map_none, Option.map_some, hempty]
      | none => simp only [readIpv4, hv4, Option.map_none]

/-! ## The result -/

/-- The host as `classify` trims it, before the case of its letters is lost. -/
def trimmedHost (host : Str) : Str :=
  Str.trimEndMatches (· == '.') (trimBrackets (Str.trim host))

/-- The text denotes the address. -/
def Denotes (text : Str) (address : IpAddr) : Prop := parseIpAddr text = some address

theorem denotes_trimmedHost {host : Str} {address : IpAddr} :
    Denotes (trimmedHost host) address ↔ Denotes (classifiedHost host) address := by
  unfold Denotes
  rw [← parseIpAddr_lower]
  rfl

/-- A list of patterns matches a text that is one of its rules or lies below one of its wildcards. -/
theorem any_matches_iff {patterns : List HostPattern} {host : Str} :
    patterns.any (fun pattern => pattern.matches host) = true ↔
      .exact host ∈ patterns ∨ ∃ tail, .suffix tail ∈ patterns ∧ '.' :: tail <:+ host := by
  rw [List.any_eq_true]
  constructor
  · rintro ⟨pattern, hpattern, hmatches⟩
    cases pattern with
    | exact expected =>
        rw [HostPattern.exact_matches_iff.mp hmatches]
        exact .inl hpattern
    | suffix tail => exact .inr ⟨tail, hpattern, HostPattern.suffix_matches_iff.mp hmatches⟩
  · rintro (hexact | ⟨tail, htail, hbelow⟩)
    · exact ⟨_, hexact, HostPattern.exact_matches_iff.mpr rfl⟩
    · exact ⟨_, htail, HostPattern.suffix_matches_iff.mpr hbelow⟩

/-- **An address that is listed as Production is Production** where the host is written as a
Production rule is, or below a Production wildcard, and an IPv4 address always is; and the lists
share no address but an IPv6 address they write differently. -/
theorem production_address_is_production {development production : List Str}
    {classifier : DestinationClassifier}
    (hcompile : DestinationClassifier.compile development production = .ok classifier) :
    (∀ text address host, .exact text ∈ classifier.production → Denotes text address →
      Denotes (trimmedHost host) address →
      (classifier.classify host = .production ↔
        (∃ octets, address = .v4 octets) ∨ .exact (classifiedHost host) ∈ classifier.production ∨
          ∃ tail, .suffix tail ∈ classifier.production ∧ '.' :: tail <:+ classifiedHost host)) ∧
    ((∃ text text' address, .exact text ∈ classifier.development ∧
        .exact text' ∈ classifier.production ∧ Denotes text address ∧ Denotes text' address) ↔
      ∃ text text' groups, .exact text ∈ classifier.development ∧
        .exact text' ∈ classifier.production ∧ text ≠ text' ∧ Denotes text (.v6 groups) ∧
          Denotes text' (.v6 groups)) := by
  have h := DestinationClassifier.compile_eq_ok.mp hcompile
  constructor
  · intro text address host htext hdenotes hhost
    have hclass : classifier.classify host = .production ↔
        .exact (classifiedHost host) ∈ classifier.production ∨
          ∃ tail, .suffix tail ∈ classifier.production ∧ '.' :: tail <:+ classifiedHost host := by
      rw [← any_matches_iff, DestinationClassifier.classify]
      split_ifs with hproduction
      · exact iff_of_true rfl hproduction
      · exact iff_of_false (by simp) hproduction
      · exact iff_of_false (by simp) hproduction
    rw [hclass]
    constructor
    · exact .inr
    · rintro (⟨octets, rfl⟩ | hmatches)
      · rw [parseIpAddr_v4_inj (denotes_trimmedHost.mp hhost) hdenotes]
        exact .inl htext
      · exact hmatches
  · constructor
    · rintro ⟨text, text', address, htext, htext', hdenotes, hdenotes'⟩
      have hne : text ≠ text' := by
        rintro rfl
        have hdisjoint := h.disjoint _ htext _ htext'
        rw [HostPattern.overlaps] at hdisjoint
        exact absurd hdisjoint (by simp)
      cases address with
      | v4 octets => exact absurd (parseIpAddr_v4_inj hdenotes hdenotes') hne
      | v6 groups => exact ⟨text, text', groups, htext, htext', hne, hdenotes, hdenotes'⟩
    · rintro ⟨text, text', groups, htext, htext', -, hdenotes, hdenotes'⟩
      exact ⟨text, text', _, htext, htext', hdenotes, hdenotes'⟩

/-- A Production IPv4 address in brackets is Production. -/
theorem bracketed_address_is_production :
    ∃ classifier, DestinationClassifier.compile [] ["10.0.0.7".toList] = .ok classifier ∧
      classifier.classify "[10.0.0.7]".toList = .production := by
  have hcompile : DestinationClassifier.compile [] ["10.0.0.7".toList] =
      .ok ⟨[], [.exact "10.0.0.7".toList]⟩ := by
    decide +kernel
  refine ⟨_, hcompile, ?_⟩
  refine ((production_address_is_production hcompile).1 "10.0.0.7".toList (.v4 [10, 0, 0, 7]) _
    (by decide +kernel) ?_ ?_).mpr (.inl ⟨_, rfl⟩)
  · unfold Denotes
    decide +kernel
  · unfold Denotes
    decide +kernel

/-- **Another spelling of a Production address is Development**: `::1` is listed, its zeros are
written out. Listed as Development, that spelling is accepted beside the other. -/
theorem respelled_address_is_development :
    (∃ classifier, DestinationClassifier.compile [] ["::1".toList] = .ok classifier ∧
      .exact "::1".toList ∈ classifier.production ∧
      Denotes "::1".toList (.v6 [0, 0, 0, 0, 0, 0, 0, 1]) ∧
      Denotes (trimmedHost "0:0:0:0:0:0:0:1".toList) (.v6 [0, 0, 0, 0, 0, 0, 0, 1]) ∧
      classifier.classify "0:0:0:0:0:0:0:1".toList = .development) ∧
    ∃ classifier, DestinationClassifier.compile ["0:0:0:0:0:0:0:1".toList] ["::1".toList] =
      .ok classifier := by
  refine ⟨⟨⟨[], [.exact "::1".toList]⟩, ?_, ?_, ?_, ?_, ?_⟩,
    ⟨[.exact "0:0:0:0:0:0:0:1".toList], [.exact "::1".toList]⟩, ?_⟩
  · decide +kernel
  · decide +kernel
  · unfold Denotes; decide +kernel
  · unfold Denotes; decide +kernel
  · decide +kernel
  · decide +kernel

end SippinSoda
