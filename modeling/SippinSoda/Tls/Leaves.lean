import SippinSoda.Tls.Preparation
import SippinSoda.HostAddresses
import Mathlib.Data.List.DropRight

/-!
# What a leaf is issued for (`issue_leaf`, `normalize_leaf_host` in `ca.rs`)

The certificate of an intercepted host names a normal form of it. That form is one of its own, and
the destination rules, which normalise a host once more, give it the class of the host.

* **isAddressChar** — what the text of an IP address is made of, as far as it is read;
* **normalizeLeafHost_eq_ok** — the hosts that are accepted, and their normal form;
* **issueLeaf_eq_ok** — what a leaf says, from when to when;
* **issued_leaves_name_development_hosts** — the leaves of every run.
-/

namespace SippinSoda

/-! ## The text of an address -/

/-- A digit, or one of the two separators. -/
def isAddressChar (c : Char) : Bool := (toDigit 16 c).isSome || c == '.' || c == ':'

/-- `rest` is what is left of `s` when some of an address has been read. -/
def AddressRead (s rest : Str) : Prop :=
  ∃ text, s = text ++ rest ∧ ∀ c ∈ text, isAddressChar c = true

theorem AddressRead.refl (s : Str) : AddressRead s s := ⟨[], rfl, fun _ hc => by cases hc⟩

theorem AddressRead.trans {s t u : Str} (h : AddressRead s t) (h' : AddressRead t u) :
    AddressRead s u := by
  obtain ⟨text, rfl, htext⟩ := h
  obtain ⟨more, rfl, hmore⟩ := h'
  refine ⟨text ++ more, (List.append_assoc ..).symm, fun c hc => ?_⟩
  rcases List.mem_append.mp hc with hc | hc
  · exact htext c hc
  · exact hmore c hc

theorem AddressRead.cons {c : Char} (h : isAddressChar c = true) (s : Str) :
    AddressRead (c :: s) s := by
  refine ⟨[c], rfl, fun d hd => ?_⟩
  obtain rfl := List.mem_singleton.mp hd
  exact h

/-- A digit of a smaller radix is one of base 16. -/
theorem toDigit_sixteen {radix : Nat} {c : Char} (hradix : radix ≤ 16)
    (h : (toDigit radix c).isSome = true) : (toDigit 16 c).isSome = true := by
  unfold toDigit at h ⊢
  obtain ⟨digit, hdigit⟩ := Option.isSome_iff_exists.mp h
  obtain ⟨hvalue, hlt⟩ := Option.filter_eq_some_iff.mp hdigit
  refine Option.isSome_iff_exists.mpr ⟨digit, Option.filter_eq_some_iff.mpr ⟨hvalue, ?_⟩⟩
  rw [decide_eq_true_eq] at hlt ⊢
  omega

theorem readNumber_read {radix maxDigits bound value : Nat} {zeroPrefix : Bool} {s rest : Str}
    (hradix : radix ≤ 16) (h : readNumber radix maxDigits bound zeroPrefix s = some (value, rest)) :
    AddressRead s rest := by
  have hsplit := List.takeWhile_append_dropWhile
    (p := fun c => (toDigit radix c).isSome) (l := s)
  have hdigit : ∀ c ∈ s.takeWhile (fun c => (toDigit radix c).isSome), isAddressChar c = true := by
    intro c hc
    have hdigit := List.mem_takeWhile_imp (p := fun c => (toDigit radix c).isSome) hc
    unfold isAddressChar
    rw [toDigit_sixteen hradix hdigit]
    rfl
  unfold readNumber at h
  dsimp only at h
  generalize s.takeWhile (fun c => (toDigit radix c).isSome) = digits at h hsplit hdigit
  split at h
  · cases h
  · obtain ⟨-, rfl⟩ := Prod.mk.inj (Option.some.inj h)
    refine ⟨digits, ?_, hdigit⟩
    rw [← hsplit, List.drop_left]

theorem readSeparator_read {separator : Char} (hseparator : isAddressChar separator = true)
    {index : Nat} {s rest : Str} (h : readSeparator separator index s = some rest) :
    AddressRead s rest := by
  rw [readSeparator_eq h]
  by_cases hindex : index = 0
  · rw [if_pos hindex]
    exact .refl rest
  · rw [if_neg hindex]
    exact .cons hseparator rest

theorem readOctets_read {count index : Nat} {s rest : Str} {octets : List Nat}
    (h : readOctets index count s = some (octets, rest)) : AddressRead s rest := by
  induction count generalizing index s octets with
  | zero =>
      obtain ⟨-, rfl⟩ := Prod.mk.inj (Option.some.inj h)
      exact .refl s
  | succ count ih =>
      obtain ⟨t, ht, h⟩ := Option.bind_eq_some_iff.mp h
      obtain ⟨⟨octet, u⟩, hu, h⟩ := Option.bind_eq_some_iff.mp h
      obtain ⟨⟨more, v⟩, hv, h⟩ := Option.bind_eq_some_iff.mp h
      obtain ⟨-, rfl⟩ := Prod.mk.inj (Option.some.inj h)
      have hseparator := readSeparator_read (by decide) ht
      have hoctet := readNumber_read (by decide) hu
      exact (hseparator.trans hoctet).trans (ih hv)

theorem readGroups_read (count index : Nat) (s : Str) :
    AddressRead s (readGroups index count s).2.2 := by
  induction count generalizing index s with
  | zero => exact .refl s
  | succ count ih =>
      unfold readGroups
      simp only
      split
      next a b c d rest hembedded =>
        -- the last two groups are an IPv4 address
        split at hembedded
        · cases hembedded
        · obtain ⟨t, ht, hread⟩ := Option.bind_eq_some_iff.mp hembedded
          exact (readSeparator_read (by decide) ht).trans (readOctets_read hread)
      next =>
        split
        next => exact .refl s
        next group rest hgroup =>
          obtain ⟨t, ht, hread⟩ := Option.bind_eq_some_iff.mp hgroup
          have hseparator := readSeparator_read (by decide) ht
          have hnumber := readNumber_read (by decide) hread
          exact (hseparator.trans hnumber).trans (ih (index + 1) rest)

theorem readIpv6_read {s rest : Str} {groups : List Nat} (h : readIpv6 s = some (groups, rest)) :
    AddressRead s rest := by
  have hhead := readGroups_read 8 0 s
  unfold readIpv6 at h
  generalize readGroups 0 8 s = found at h hhead
  obtain ⟨head, headV4, left⟩ := found
  simp only at h
  split at h
  · obtain ⟨-, rfl⟩ := Prod.mk.inj (Option.some.inj h)
    exact hhead
  · split at h
    · cases h
    · split at h
      next more =>
        have htail := readGroups_read (8 - (head.length + 1)) 0 more
        obtain ⟨-, rfl⟩ := Prod.mk.inj (Option.some.inj h)
        have hcolon : isAddressChar ':' = true := by decide
        exact ((hhead.trans (.cons hcolon _)).trans (.cons hcolon _)).trans htail
      · cases h

/-- The text of an IP address has no other characters. -/
theorem isAddressChar_of_parseIpAddr {s : Str} (h : (parseIpAddr s).isSome = true) :
    ∀ c ∈ s, isAddressChar c = true := by
  have hall {rest : Str} (hread : AddressRead s rest) (hrest : rest.isEmpty = true) :
      ∀ c ∈ s, isAddressChar c = true := by
    obtain ⟨text, rfl, htext⟩ := hread
    rw [List.isEmpty_iff.mp hrest, List.append_nil]
    exact htext
  unfold parseIpAddr at h
  split at h
  next octets rest hv4 =>
    split at h
    next hrest => exact hall (readOctets_read hv4) hrest
    next => cases h
  next =>
    split at h
    next groups rest hv6 =>
      split at h
      next hrest => exact hall (readIpv6_read hv6) hrest
      next => cases h
    next => cases h

/-! ## Normal forms -/

/-- What host names and addresses are made of. -/
def isHostChar (c : Char) : Bool := Str.isAsciiAlphanumeric c || "-_.:".toList.contains c

theorem isHostChar_of_isAddressChar {c : Char} (h : isAddressChar c = true) :
    isHostChar c = true := by
  unfold isAddressChar at h
  rw [Bool.or_eq_true, Bool.or_eq_true, beq_iff_eq, beq_iff_eq] at h
  rcases h with (h | rfl) | rfl
  · have hcase : Str.isAsciiAlphanumeric c = true := by
      unfold toDigit at h
      simp only [Str.isAsciiAlphanumeric, Bool.or_eq_true, Bool.and_eq_true, decide_eq_true_eq]
      split at h
      next hdigit => exact .inl (.inl hdigit)
      next =>
        split at h
        next hlower => exact .inr ⟨hlower.1, Char.le_trans hlower.2 (by decide)⟩
        next =>
          split at h
          next hupper => exact .inl (.inr ⟨hupper.1, Char.le_trans hupper.2 (by decide)⟩)
          next => cases h
    unfold isHostChar
    rw [hcase]
    rfl
  · decide
  · decide

/-- A character of a text is the separator, or in one of the pieces. -/
theorem mem_splitOn_of_mem {sep c : Char} :
    ∀ {s : Str}, c ∈ s → c = sep ∨ ∃ piece ∈ s.splitOn sep, c ∈ piece := by
  intro s
  induction s with
  | nil =>
      intro hc
      cases hc
  | cons x s ih =>
      intro hc
      rw [List.splitOn_cons_eq_if_modifyHead]
      split
      next hx =>
        rcases List.mem_cons.mp hc with rfl | hc
        · exact .inl (beq_iff_eq.mp hx)
        · rcases ih hc with hsep | ⟨piece, hpiece, hin⟩
          · exact .inl hsep
          · exact .inr ⟨piece, List.mem_cons_of_mem _ hpiece, hin⟩
      next =>
        rcases hsplit : s.splitOn sep with _ | ⟨first, rest⟩
        · exact absurd hsplit (List.splitOn_ne_nil sep s)
        · rw [List.modifyHead_cons]
          rcases List.mem_cons.mp hc with rfl | hc
          · exact .inr ⟨_, List.mem_cons_self, List.mem_cons_self⟩
          · rcases ih hc with hsep | ⟨piece, hpiece, hin⟩
            · exact .inl hsep
            · rw [hsplit] at hpiece
              rcases List.mem_cons.mp hpiece with rfl | hpiece
              · exact .inr ⟨_, List.mem_cons_self, List.mem_cons_of_mem _ hin⟩
              · exact .inr ⟨piece, List.mem_cons_of_mem _ hpiece, hin⟩

/-- A name is made of labels and dots. -/
theorem isHostChar_of_validHostname {name : Str} (h : validHostname name = true) :
    ∀ c ∈ name, isHostChar c = true := by
  intro c hc
  have hpieces : c = '.' ∨ ∃ piece ∈ name.splitOn '.', c ∈ piece := mem_splitOn_of_mem hc
  rcases hpieces with rfl | ⟨label, hlabel, hin⟩
  · decide
  · have hvalid := List.all_eq_true.mp h label hlabel
    rw [Bool.and_eq_true] at hvalid
    have hchar := List.all_eq_true.mp hvalid.2 c hin
    rw [Bool.or_eq_true, Bool.or_eq_true, beq_iff_eq, beq_iff_eq] at hchar
    unfold isHostChar
    rcases hchar with (hchar | rfl) | rfl
    · rw [hchar]
      rfl
    · decide
    · decide

/-- A host of these characters is bare. -/
theorem bareHost_of_isHostChar {host : Str} (h : ∀ c ∈ host, isHostChar c = true) :
    BareHost host := by
  intro c hc
  have hhost := h c hc
  have hauthority : isAuthorityChar c = true := by
    unfold isHostChar at hhost
    unfold isAuthorityChar
    rw [Bool.or_eq_true] at hhost ⊢
    rcases hhost with hhost | hhost
    · exact .inl hhost
    · refine .inr ?_
      have hall : "-_.:".toList.all (fun x => "-._~!$&'()*+,;=:@%[]".toList.contains x) = true := by
        decide
      exact List.all_eq_true.mp hall c (List.contains_iff_mem.mp hhost)
  refine ⟨isWhitespace_of_isAuthorityChar hauthority, fun hbracket => ?_, fun hbracket => ?_⟩
  · rw [hbracket] at hhost
    exact absurd hhost (by decide)
  · rw [hbracket] at hhost
    exact absurd hhost (by decide)

theorem trimEndMatches_idem (p : Char → Bool) (s : Str) :
    Str.trimEndMatches p (Str.trimEndMatches p s) = Str.trimEndMatches p s := by
  unfold Str.trimEndMatches
  rw [List.reverse_reverse, List.dropWhile_idempotent]

/-- The hosts that are accepted. -/
structure LeafHost (host : Str) : Prop where
  nonempty : host ≠ []
  len : Str.len host ≤ 253
  ascii : Str.isAscii host = true
  valid : (parseIpAddr host).isSome = true ∨ validHostname host = true

/-- **A leaf is for the text that the destination rules compare.** -/
theorem normalizeLeafHost_eq_ok {host name : Str} :
    normalizeLeafHost host = .ok name ↔ name = classifiedHost host ∧ LeafHost name := by
  have hdef : normalizeLeafHost host =
      if (classifiedHost host).isEmpty || 253 < Str.len (classifiedHost host) ||
          !Str.isAscii (classifiedHost host) ||
          ((parseIpAddr (classifiedHost host)).isNone && !validHostname (classifiedHost host)) then
        .error "Host certificates require a valid DNS name or IP address without a port."
      else .ok (classifiedHost host) := rfl
  rw [hdef]
  by_cases hbad : ((classifiedHost host).isEmpty || 253 < Str.len (classifiedHost host) ||
      !Str.isAscii (classifiedHost host) ||
      ((parseIpAddr (classifiedHost host)).isNone && !validHostname (classifiedHost host))) = true
  · rw [if_pos hbad]
    refine ⟨fun h => (by cases h), fun h => ?_⟩
    obtain ⟨rfl, hok⟩ := h
    simp only [Bool.or_eq_true, Bool.and_eq_true, decide_eq_true_eq, List.isEmpty_iff,
      Bool.not_eq_true', Option.isNone_iff_eq_none] at hbad
    rcases hbad with ((hempty | hlen) | hascii) | ⟨hnone, hname⟩
    · exact absurd hempty hok.nonempty
    · have hle := hok.len
      omega
    · rw [hok.ascii] at hascii
      cases hascii
    · rcases hok.valid with hvalid | hvalid
      · rw [hnone] at hvalid
        cases hvalid
      · rw [hvalid] at hname
        cases hname
  · rw [if_neg hbad]
    simp only [Bool.or_eq_true, Bool.and_eq_true, decide_eq_true_eq, List.isEmpty_iff,
      Bool.not_eq_true', Option.isNone_iff_eq_none, not_or, not_and] at hbad
    obtain ⟨⟨⟨hempty, hlen⟩, hascii⟩, hvalid⟩ := hbad
    constructor
    · intro h
      cases h
      refine ⟨rfl, hempty, by omega, by simpa using hascii, ?_⟩
      by_cases hnone : parseIpAddr (classifiedHost host) = none
      · exact .inr (by simpa using hvalid hnone)
      · exact .inl (Option.isSome_iff_ne_none.mpr hnone)
    · rintro ⟨rfl, -⟩
      rfl

/-- The normal form of an accepted host is one already. -/
theorem classifiedHost_of_normalized {host name : Str} (h : normalizeLeafHost host = .ok name) :
    classifiedHost name = name := by
  obtain ⟨hname, hok⟩ := normalizeLeafHost_eq_ok.mp h
  have hbare : BareHost name := by
    refine bareHost_of_isHostChar ?_
    rcases hok.valid with hvalid | hvalid
    · exact fun c hc => isHostChar_of_isAddressChar (isAddressChar_of_parseIpAddr hvalid c hc)
    · exact isHostChar_of_validHostname hvalid
  -- the dots at the end are gone
  have hdots : Str.trimEndMatches (· == '.') name = name := by
    rw [hname]
    unfold classifiedHost
    rw [trimEnd_lower (lowerAscii_beq (by decide))]
    exact congrArg Str.toAsciiLowercase (trimEndMatches_idem _ _)
  rw [classifiedHost_of_bare hbare, hdots, hname]
  unfold classifiedHost
  exact toAsciiLowercase_idem _

theorem normalizeLeafHost_idem {host name : Str} (h : normalizeLeafHost host = .ok name) :
    normalizeLeafHost name = .ok name :=
  normalizeLeafHost_eq_ok.mpr
    ⟨(classifiedHost_of_normalized h).symm, (normalizeLeafHost_eq_ok.mp h).2⟩

/-- The destination rules do not tell the normal form from the host. -/
theorem classify_of_normalized (classifier : DestinationClassifier) {host name : Str}
    (h : normalizeLeafHost host = .ok name) :
    classifier.classify name = classifier.classify host := by
  have hsame : classifiedHost name = classifiedHost host :=
    (classifiedHost_of_normalized h).trans (normalizeLeafHost_eq_ok.mp h).1
  unfold DestinationClassifier.classify
  rw [hsame]

/-! ## Issuing -/

/-- What a leaf says that the CA issues at `now`. -/
structure StoredCa.Issued (ca : StoredCa) (now : Nat) (host : Str) (leaf : IssuedLeaf) : Prop where
  issuer : leaf.issuerFingerprintSha256 = ca.fingerprintSha256
  host : normalizeLeafHost host = .ok leaf.host
  /-- It is valid for some time, a day at most, and not longer than the CA. -/
  valid : now < leaf.expiresAt
  day : leaf.expiresAt ≤ now + 24 * 3600 * 1000
  within : leaf.expiresAt ≤ ca.expiresAt

theorem StoredCa.issueLeaf_eq_ok {ca : StoredCa} {now : Nat} {fault : Option LeafFault}
    {host : Str} {destination : DestinationClass} {leaf : IssuedLeaf}
    (h : ca.issueLeaf now fault host destination = .ok leaf) :
    destination = .development ∧ ca.Issued now host leaf := by
  have hdevelopment := (StoredCa.issueLeaf_issuer h).1
  unfold StoredCa.issueLeaf at h
  split at h
  · cases h
  · split at h
    · cases h
    next name hname =>
      split at h
      · cases h
      · split at h
        · cases h
        · simp only at h
          split at h
          · cases h
          next hexpires =>
            split at h
            · cases h
            · cases h
              refine ⟨hdevelopment, rfl, hname, ?_, ?_, ?_⟩
              · -- the CA expires at a full second
                show now < _ / 1000 * 1000
                omega
              · show _ / 1000 * 1000 ≤ _
                omega
              · show _ / 1000 * 1000 ≤ _
                omega

theorem CaManager.issueLeaf_eq_ok {credential : Option Credential} {now : Nat}
    {fault : Option StoreFault} {leafFault : Option LeafFault} {host : Str}
    {destination : DestinationClass} {leaf : IssuedLeaf}
    (h : CaManager.issueLeaf credential now fault leafFault host destination = .ok leaf) :
    destination = .development ∧ ∃ ca, credential = some (.ca ca) ∧ ca.Issued now host leaf := by
  unfold CaManager.issueLeaf at h
  split at h
  · cases h
  · split at h
    · cases h
    · cases h
    next ca hload =>
      obtain ⟨hdevelopment, hissued⟩ := StoredCa.issueLeaf_eq_ok h
      refine ⟨hdevelopment, ca, ?_, hissued⟩
      unfold CaManager.load at hload
      split at hload
      · cases hload
      · split at hload
        · cases hload
        · cases hload
          rfl
        · cases hload

/-! ## In every run -/

/-- The step is the one in which preparation `k` issues the leaf, with the CA that is stored and at
the time it is. -/
def Trust.Issues (k : Nat) (host : Str) (leaf : IssuedLeaf) (s : Trust) (e : TrustEvent) : Prop :=
  (∃ fault leafFault, e = .preparation k (.go fault leafFault)) ∧
    ∃ ca, s.credential = some (.ca ca) ∧ ca.Issued s.clock host leaf

/-- The step of a preparation that returns a leaf. -/
theorem Trust.issues_of_step {s : Trust} {k : Nat} {p : Preparation} {answer : PreparationAnswer}
    {leaf : IssuedLeaf} (h : s.preparationStep p answer = some (.returned (.ok (some leaf)))) :
    p.destination = .development ∧ s.Issues k p.host leaf (.preparation k answer) := by
  unfold Trust.preparationStep at h
  cases answer with
  | workerFailed =>
      simp only at h
      split at h <;> cases h
  | go fault leafFault =>
      simp only at h
      split at h
      -- invoked
      · split at h <;> cases h
      -- issuing
      · split at h
        · cases h
        · split at h <;> cases h
      -- looked
      · split at h <;> cases h
      -- ready
      · split at h
        · cases h
        next issued hissued =>
          split at h
          · cases h
          · cases h
            obtain ⟨hdevelopment, hca⟩ := CaManager.issueLeaf_eq_ok hissued
            exact ⟨hdevelopment, ⟨fault, leafFault, rfl⟩, hca⟩
      -- returned
      · cases h

/-- Every leaf that has been returned has been issued in some step. -/
theorem issued_of_run {credential : Option Credential} :
    ∀ {es : List TrustEvent} {s : Trust}, (trust credential).run es = some s →
      ∀ (k : Nat) (p : Preparation) (leaf : IssuedLeaf), s.preparations[k]? = some p →
        p.point = .returned (.ok (some leaf)) → p.destination = .development ∧
          (trust credential).Once (fun _ s e => s.Issues k p.host leaf e) es := by
  refine Machine.run_induction (P := fun (es : List TrustEvent) (s : Trust) =>
    ∀ (k : Nat) (p : Preparation) (leaf : IssuedLeaf), s.preparations[k]? = some p →
      p.point = .returned (.ok (some leaf)) → p.destination = .development ∧
        (trust credential).Once (fun _ s e => s.Issues k p.host leaf e) es) ?_ ?_
  · intro k p leaf hp
    cases hp
  · intro es s e s' hrun ih hstep k p' leaf hp' hpoint
    rcases Trust.preparations_step hstep hp' with
      hp | hinvoked | ⟨p, answer, point, rfl, hp, hmove, rfl⟩
    · obtain ⟨hdevelopment, honce⟩ := ih k p' leaf hp hpoint
      exact ⟨hdevelopment, honce.append _⟩
    · rw [hinvoked] at hpoint
      cases hpoint
    · obtain rfl : point = .returned (.ok (some leaf)) := hpoint
      obtain ⟨hdevelopment, hissues⟩ := Trust.issues_of_step (k := k) hmove
      exact ⟨hdevelopment, .now hrun hissues⟩

/-- **Every leaf names a Development host.** In every run, a preparation that has returned a leaf
was for a Development destination; it issued the leaf in one step, with the CA that was stored
then, valid from then on for a day at most and not longer than that CA. The name in it is the host
as the destination rules compare it, a normal form that every classifier puts into the class of
the host: with the class a tunnel is prepared with, the certificate's own name is Development. -/
theorem issued_leaves_name_development_hosts {credential : Option Credential}
    {es : List TrustEvent} {s : Trust} (hrun : (trust credential).run es = some s) {k : Nat}
    {p : Preparation} {leaf : IssuedLeaf} (hp : s.preparations[k]? = some p)
    (hpoint : p.point = .returned (.ok (some leaf))) :
    p.destination = .development ∧
    (trust credential).Once (fun _ s e => s.Issues k p.host leaf e) es ∧
    leaf.host = classifiedHost p.host ∧ normalizeLeafHost leaf.host = .ok leaf.host ∧
    (∀ classifier : DestinationClassifier,
      classifier.classify leaf.host = classifier.classify p.host) ∧
    ∀ (classifier : DestinationClassifier) (uri : Uri), p.host = trimBrackets uri.host →
      p.destination = classifier.classify uri.host →
        classifier.classify leaf.host = .development := by
  obtain ⟨hdevelopment, honce⟩ := issued_of_run hrun k p leaf hp hpoint
  obtain ⟨_, _, _, _, _, -, ⟨-, ca, -, hissued⟩⟩ := id honce
  have hclass (classifier : DestinationClassifier) :
      classifier.classify leaf.host = classifier.classify p.host :=
    classify_of_normalized classifier hissued.host
  refine ⟨hdevelopment, honce, (normalizeLeafHost_eq_ok.mp hissued.host).1,
    normalizeLeafHost_idem hissued.host, hclass, fun classifier uri hhost hdestination => ?_⟩
  rw [hclass, hhost, classify_trimBrackets, ← hdestination, hdevelopment]

/-- The same client asks for a host in another spelling. -/
def respelledRun : List TrustEvent :=
  terminatedRun ++
    [.prepare ⟨"browser-1".toList⟩ "LocalHost.".toList .development (some "browser-1".toList),
      .preparation 1 (.go none none), .preparation 1 (.go none none),
      .preparation 1 (.go none none), .preparation 1 (.go none none)]

theorem respelled_host_is_named :
    ∃ leaf : IssuedLeaf, leaf.host = "localhost".toList ∧
      (trust (some (.ca storedCa))).Once
        (fun _ s e => s.Issues 1 "LocalHost.".toList leaf e) respelledRun ∧
      DestinationClassifier.default.classify leaf.host =
        DestinationClassifier.default.classify "LocalHost.".toList := by
  have hrun : (((trust (some (.ca storedCa))).run respelledRun).bind fun s => s.preparations[1]?) =
      some ⟨⟨"browser-1".toList⟩, "LocalHost.".toList, .development, some "browser-1".toList,
        .returned (.ok (some ⟨storedCa.fingerprintSha256, "localhost".toList, 86400000⟩))⟩ := by
    decide +kernel
  obtain ⟨s, hrun, hp⟩ := Option.bind_eq_some_iff.mp hrun
  obtain ⟨-, honce, -, -, hclass, -⟩ := issued_leaves_name_development_hosts hrun hp rfl
  exact ⟨_, rfl, honce, hclass _⟩

end SippinSoda
