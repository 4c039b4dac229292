import Mathlib.Data.List.Forall2

/-!
# UTF-8, one byte at a time

After the first byte of a character the rest of its bytes are owed, each within a range. What is
owed is all a decoder has to remember between two bytes.

* **step**, **run** — what is owed after a byte, after several;
* **run_eq_some_nil** — nothing is owed, and no byte was refused, exactly after the encoding of
  a text;
* **fromUtf8** — the check of a sequence that says how far it got: of a sequence that only lacks
  its end, the bytes of the unfinished character stand for all of it.
-/

namespace Utf8

/-- The ranges of the bytes that are still owed to a character. -/
abbrev Owed := List (Nat × Nat)

/-- Any byte that continues a character. -/
def continuation : Nat × Nat := (0x80, 0xBF)

/-- What is owed after the first byte of a character. -/
def lead (byte : UInt8) : Option Owed :=
  if byte.toNat < 0x80 then some []
  else if byte.toNat < 0xC2 then none
  else if byte.toNat < 0xE0 then some [continuation]
  else if byte.toNat = 0xE0 then some [(0xA0, 0xBF), continuation]
  else if byte.toNat = 0xED then some [(0x80, 0x9F), continuation]
  else if byte.toNat < 0xF0 then some [continuation, continuation]
  else if byte.toNat = 0xF0 then some [(0x90, 0xBF), continuation, continuation]
  else if byte.toNat < 0xF4 then some [continuation, continuation, continuation]
  else if byte.toNat = 0xF4 then some [(0x80, 0x8F), continuation, continuation]
  else none

/-- Is the byte in the range? -/
def Within (range : Nat × Nat) (byte : UInt8) : Prop :=
  range.1 ≤ byte.toNat ∧ byte.toNat ≤ range.2

instance (range : Nat × Nat) (byte : UInt8) : Decidable (Within range byte) :=
  inferInstanceAs (Decidable (_ ∧ _))

/-- What is owed after one more byte; `none` if the byte is refused. -/
def step : Owed → UInt8 → Option Owed
  | [], byte => lead byte
  | range :: owed, byte => if Within range byte then some owed else none

/-- What is owed after several bytes. -/
def run (owed : Owed) (bytes : List UInt8) : Option Owed := bytes.foldlM step owed

@[simp] theorem run_nil (owed : Owed) : run owed [] = some owed := rfl

@[simp] theorem run_cons (owed : Owed) (byte : UInt8) (bytes : List UInt8) :
    run owed (byte :: bytes) = (step owed byte).bind fun owed => run owed bytes := by
  rw [run, List.foldlM_cons]
  rfl

theorem run_append (owed : Owed) (bytes more : List UInt8) :
    run owed (bytes ++ more) = (run owed bytes).bind fun owed => run owed more := by
  rw [run, List.foldlM_append]
  rfl

/-! ## ASCII -/

/-- Only bytes that are not ASCII are owed. -/
def Continues (owed : Owed) : Prop := ∀ range ∈ owed, 0x80 ≤ range.1

theorem continues_nil : Continues [] := fun _ h => absurd h List.not_mem_nil

theorem Continues.step {owed owed' : Owed} {byte : UInt8} (h : Continues owed)
    (hstep : step owed byte = some owed') : Continues owed' := by
  cases owed with
  | nil =>
      rw [Utf8.step, lead] at hstep
      split_ifs at hstep <;> obtain rfl := Option.some.inj hstep <;>
        simp [Continues, continuation]
  | cons range owed =>
      rw [Utf8.step] at hstep
      split_ifs at hstep
      obtain rfl := Option.some.inj hstep
      exact fun range hrange => h range (List.mem_cons_of_mem _ hrange)

/-- An ASCII byte is a character, and comes only where nothing is owed. -/
theorem step_ascii {owed owed' : Owed} {byte : UInt8} (h : Continues owed)
    (hbyte : byte.toNat < 0x80) (hstep : step owed byte = some owed') :
    owed = [] ∧ owed' = [] := by
  cases owed with
  | nil =>
      rw [step, lead, if_pos hbyte] at hstep
      exact ⟨rfl, (Option.some.inj hstep).symm⟩
  | cons range owed =>
      rw [step] at hstep
      split_ifs at hstep with hwithin
      have hlow := h range List.mem_cons_self
      have hge := hwithin.1
      omega

/-- ASCII bytes may stand where nothing is owed. -/
theorem run_ascii {bytes : List UInt8} (h : ∀ byte ∈ bytes, byte.toNat < 0x80) :
    run [] bytes = some [] := by
  induction bytes with
  | nil => rfl
  | cons byte bytes ih =>
      rw [run_cons, step, lead, if_pos (h byte List.mem_cons_self), Option.bind_some]
      exact ih fun byte hbyte => h byte (List.mem_cons_of_mem _ hbyte)

/-! ## Texts -/

/-- The encoding of a text. -/
def encode (text : List Char) : List UInt8 := text.flatMap String.utf8EncodeChar

theorem step_within {range : Nat × Nat} {byte : UInt8} (h : Within range byte) (owed : Owed) :
    step (range :: owed) byte = some owed := if_pos h

theorem lead_one {byte : UInt8} (h : byte.toNat < 0x80) : lead byte = some [] := if_pos h

theorem lead_two {byte : UInt8} (h : 0xC2 ≤ byte.toNat) (h' : byte.toNat < 0xE0) :
    lead byte = some [continuation] := by
  unfold lead
  rw [if_neg (by omega), if_neg (by omega), if_pos h']

/-- Of three bytes, the second is bounded further after the first lead and after `0xED`. -/
theorem lead_three {byte second : UInt8} (h : 0xE0 ≤ byte.toNat) (h' : byte.toNat < 0xF0)
    (hsecond : Within continuation second) (hlow : byte.toNat = 0xE0 → 0xA0 ≤ second.toNat)
    (hhigh : byte.toNat = 0xED → second.toNat ≤ 0x9F) :
    ∃ range, lead byte = some [range, continuation] ∧ Within range second := by
  unfold lead
  rw [if_neg (by omega), if_neg (by omega), if_neg (by omega)]
  by_cases hE0 : byte.toNat = 0xE0
  · exact ⟨_, if_pos hE0, hlow hE0, hsecond.2⟩
  · by_cases hED : byte.toNat = 0xED
    · exact ⟨(0x80, 0x9F), by rw [if_neg hE0, if_pos hED], hsecond.1, hhigh hED⟩
    · exact ⟨_, by rw [if_neg hE0, if_neg hED, if_pos h'], hsecond⟩

/-- Of four bytes, the second is bounded further after the first and after the last lead. -/
theorem lead_four {byte second : UInt8} (h : 0xF0 ≤ byte.toNat) (h' : byte.toNat ≤ 0xF4)
    (hsecond : Within continuation second) (hlow : byte.toNat = 0xF0 → 0x90 ≤ second.toNat)
    (hhigh : byte.toNat = 0xF4 → second.toNat ≤ 0x8F) :
    ∃ range, lead byte = some [range, continuation, continuation] ∧ Within range second := by
  unfold lead
  rw [if_neg (by omega), if_neg (by omega), if_neg (by omega), if_neg (by omega),
    if_neg (by omega), if_neg (by omega)]
  by_cases hF0 : byte.toNat = 0xF0
  · exact ⟨_, if_pos hF0, hlow hF0, hsecond.2⟩
  · by_cases hF4 : byte.toNat < 0xF4
    · exact ⟨_, by rw [if_neg hF0, if_pos hF4], hsecond⟩
    · have hlast : byte.toNat = 0xF4 := by omega
      exact ⟨(0x80, 0x8F), by rw [if_neg hF0, if_neg hF4, if_pos hlast], hsecond.1, hhigh hlast⟩

theorem toNat_ofNat_of_lt {n : Nat} (h : n < 256) : (UInt8.ofNat n).toNat = n := by
  rw [UInt8.toNat_ofNat']
  exact Nat.mod_eq_of_lt h

theorem within_continuation (n : Nat) : Within continuation (UInt8.ofNat (n % 64 + 0x80)) := by
  show 0x80 ≤ (UInt8.ofNat (n % 64 + 0x80)).toNat ∧ (UInt8.ofNat (n % 64 + 0x80)).toNat ≤ 0xBF
  rw [toNat_ofNat_of_lt (by omega)]
  omega

/-- A character leaves nothing owed. -/
theorem run_encodeChar (c : Char) : run [] (String.utf8EncodeChar c) = some [] := by
  have hvalid : c.val.toNat < 0xD800 ∨ 0xDFFF < c.val.toNat ∧ c.val.toNat < 0x110000 := c.valid
  generalize hv : c.val.toNat = v at hvalid
  unfold String.utf8EncodeChar
  rw [hv]
  dsimp only
  by_cases h1 : v ≤ 0x7F
  · rw [if_pos h1, run_cons, step, lead_one (by rw [toNat_ofNat_of_lt] <;> omega)]
    rfl
  rw [if_neg h1]
  by_cases h2 : v ≤ 0x7FF
  · have hlead : lead (UInt8.ofNat (v / 64 % 0x20 + 0xC0)) = some [continuation] := by
      apply lead_two <;> rw [toNat_ofNat_of_lt] <;> omega
    rw [if_pos h2, run_cons, step, hlead, Option.bind_some, run_cons,
      step_within (within_continuation v)]
    rfl
  rw [if_neg h2]
  by_cases h3 : v ≤ 0xFFFF
  · obtain ⟨range, hlead, hsecond⟩ :
        ∃ range, lead (UInt8.ofNat (v / 4096 % 0x10 + 0xE0)) = some [range, continuation] ∧
          Within range (UInt8.ofNat (v / 64 % 64 + 0x80)) := by
      apply lead_three _ _ (within_continuation _) <;>
        rw [toNat_ofNat_of_lt] <;> try rw [toNat_ofNat_of_lt]
      all_goals omega
    rw [if_pos h3, run_cons, step, hlead, Option.bind_some, run_cons, step_within hsecond,
      Option.bind_some, run_cons, step_within (within_continuation v)]
    rfl
  · obtain ⟨range, hlead, hsecond⟩ :
        ∃ range, lead (UInt8.ofNat (v / 262144 % 0x08 + 0xF0)) =
            some [range, continuation, continuation] ∧
          Within range (UInt8.ofNat (v / 4096 % 64 + 0x80)) := by
      apply lead_four _ _ (within_continuation _) <;>
        rw [toNat_ofNat_of_lt] <;> try rw [toNat_ofNat_of_lt]
      all_goals omega
    rw [if_neg h3, run_cons, step, hlead, Option.bind_some, run_cons, step_within hsecond,
      Option.bind_some, run_cons, step_within (within_continuation _), Option.bind_some, run_cons,
      step_within (within_continuation v)]
    rfl

/-- A text leaves nothing owed. -/
theorem run_encode (text : List Char) : run [] (encode text) = some [] := by
  induction text with
  | nil => rfl
  | cons c text ih =>
      show run [] (String.utf8EncodeChar c ++ encode text) = some []
      rw [run_append, run_encodeChar, Option.bind_some, ih]

/-- There is a character of each value outside the surrogates. -/
theorem exists_char {n : Nat} (h : n < 0xD800 ∨ 0xDFFF < n ∧ n < 0x110000) :
    ∃ c : Char, c.val.toNat = n := by
  refine ⟨⟨UInt32.ofNat n, ?_⟩, ?_⟩
  · show (UInt32.ofNat n).toNat < 0xD800 ∨
      0xDFFF < (UInt32.ofNat n).toNat ∧ (UInt32.ofNat n).toNat < 0x110000
    rw [UInt32.toNat_ofNat', Nat.mod_eq_of_lt (by omega)]
    exact h
  · show (UInt32.ofNat n).toNat = n
    rw [UInt32.toNat_ofNat', Nat.mod_eq_of_lt (by omega)]

theorem ofNat_eq (byte : UInt8) {n : Nat} (h : n = byte.toNat) : UInt8.ofNat n = byte := by
  rw [h, UInt8.ofNat_toNat]

/-- How many bytes the first one owes, and how it bounds the second. -/
theorem lead_cases {byte : UInt8} {owed : Owed} (h : lead byte = some owed) :
    (owed = [] ∧ byte.toNat < 0x80) ∨
    (owed = [continuation] ∧ 0xC2 ≤ byte.toNat ∧ byte.toNat < 0xE0) ∨
    (∃ range, owed = [range, continuation] ∧ 0xE0 ≤ byte.toNat ∧ byte.toNat < 0xF0 ∧
      0x80 ≤ range.1 ∧ range.2 ≤ 0xBF ∧ (byte.toNat = 0xE0 → 0xA0 ≤ range.1) ∧
      (byte.toNat = 0xED → range.2 ≤ 0x9F)) ∨
    (∃ range, owed = [range, continuation, continuation] ∧ 0xF0 ≤ byte.toNat ∧
      byte.toNat ≤ 0xF4 ∧ 0x80 ≤ range.1 ∧ range.2 ≤ 0xBF ∧
      (byte.toNat = 0xF0 → 0x90 ≤ range.1) ∧ (byte.toNat = 0xF4 → range.2 ≤ 0x8F)) := by
  unfold lead at h
  split_ifs at h <;> obtain rfl := Option.some.inj h
  · exact .inl ⟨rfl, by assumption⟩
  · exact .inr (.inl ⟨rfl, by omega, by omega⟩)
  · exact .inr (.inr (.inl ⟨(0xA0, 0xBF), rfl, by simp; omega⟩))
  · exact .inr (.inr (.inl ⟨(0x80, 0x9F), rfl, by simp; omega⟩))
  · exact .inr (.inr (.inl ⟨continuation, rfl, by simp [continuation]; omega⟩))
  · exact .inr (.inr (.inr ⟨(0x90, 0xBF), rfl, by simp; omega⟩))
  · exact .inr (.inr (.inr ⟨continuation, rfl, by simp [continuation]; omega⟩))
  · exact .inr (.inr (.inr ⟨(0x80, 0x8F), rfl, by simp; omega⟩))

/-- A first byte and the bytes it owes are a character. -/
theorem exists_char_of_lead {byte : UInt8} {owed : Owed} {bytes : List UInt8}
    (hlead : lead byte = some owed) (hbytes : List.Forall₂ Within owed bytes) :
    ∃ c, String.utf8EncodeChar c = byte :: bytes := by
  rcases lead_cases hlead with ⟨rfl, h⟩ | ⟨rfl, h, h'⟩ |
    ⟨range, rfl, h, h', hlow, hhigh, hfirst, hlast⟩ |
    ⟨range, rfl, h, h', hlow, hhigh, hfirst, hlast⟩
  · obtain rfl := List.forall₂_nil_left_iff.mp hbytes
    obtain ⟨c, hc⟩ := exists_char (n := byte.toNat) (by omega)
    refine ⟨c, ?_⟩
    unfold String.utf8EncodeChar
    rw [hc]
    dsimp only
    rw [if_pos (by omega), ofNat_eq _ rfl]
  · obtain ⟨b1, _, h1, hrest1, rfl⟩ := List.forall₂_cons_left_iff.mp hbytes
    obtain rfl := List.forall₂_nil_left_iff.mp hrest1
    have h1 : 0x80 ≤ b1.toNat ∧ b1.toNat ≤ 0xBF := h1
    obtain ⟨c, hc⟩ := exists_char (n := (byte.toNat - 0xC0) * 64 + (b1.toNat - 0x80)) (by omega)
    refine ⟨c, ?_⟩
    unfold String.utf8EncodeChar
    rw [hc]
    dsimp only
    rw [if_neg (by omega), if_pos (by omega), ofNat_eq byte (by omega),
      ofNat_eq b1 (by omega)]
  · obtain ⟨b1, _, h1, hrest1, rfl⟩ := List.forall₂_cons_left_iff.mp hbytes
    obtain ⟨b2, _, h2, hrest2, rfl⟩ := List.forall₂_cons_left_iff.mp hrest1
    obtain rfl := List.forall₂_nil_left_iff.mp hrest2
    have h1 : range.1 ≤ b1.toNat ∧ b1.toNat ≤ range.2 := h1
    have h2 : 0x80 ≤ b2.toNat ∧ b2.toNat ≤ 0xBF := h2
    obtain ⟨c, hc⟩ := exists_char (n := (byte.toNat - 0xE0) * 4096 + (b1.toNat - 0x80) * 64 +
      (b2.toNat - 0x80)) (by omega)
    refine ⟨c, ?_⟩
    unfold String.utf8EncodeChar
    rw [hc]
    dsimp only
    rw [if_neg (by omega), if_neg (by omega), if_pos (by omega),
      ofNat_eq byte (by omega), ofNat_eq b1 (by omega),
      ofNat_eq b2 (by omega)]
  · obtain ⟨b1, _, h1, hrest1, rfl⟩ := List.forall₂_cons_left_iff.mp hbytes
    obtain ⟨b2, _, h2, hrest2, rfl⟩ := List.forall₂_cons_left_iff.mp hrest1
    obtain ⟨b3, _, h3, hrest3, rfl⟩ := List.forall₂_cons_left_iff.mp hrest2
    obtain rfl := List.forall₂_nil_left_iff.mp hrest3
    have h1 : range.1 ≤ b1.toNat ∧ b1.toNat ≤ range.2 := h1
    have h2 : 0x80 ≤ b2.toNat ∧ b2.toNat ≤ 0xBF := h2
    have h3 : 0x80 ≤ b3.toNat ∧ b3.toNat ≤ 0xBF := h3
    obtain ⟨c, hc⟩ := exists_char (n := (byte.toNat - 0xF0) * 262144 +
      (b1.toNat - 0x80) * 4096 + (b2.toNat - 0x80) * 64 + (b3.toNat - 0x80)) (by omega)
    refine ⟨c, ?_⟩
    unfold String.utf8EncodeChar
    rw [hc]
    dsimp only
    rw [if_neg (by omega), if_neg (by omega), if_neg (by omega),
      ofNat_eq byte (by omega), ofNat_eq b1 (by omega),
      ofNat_eq b2 (by omega), ofNat_eq b3 (by omega)]

/-- A run that ends with nothing owed has met what was owed at its start. -/
theorem met_of_run {owed : Owed} {bytes : List UInt8} (h : run owed bytes = some []) :
    ∃ met rest, bytes = met ++ rest ∧ List.Forall₂ Within owed met ∧ run [] rest = some [] := by
  induction owed generalizing bytes with
  | nil => exact ⟨[], bytes, rfl, .nil, h⟩
  | cons range owed ih =>
      cases bytes with
      | nil => exact absurd h (by simp)
      | cons byte bytes =>
          rw [run_cons, step] at h
          by_cases hwithin : Within range byte
          · rw [if_pos hwithin, Option.bind_some] at h
            obtain ⟨met, rest, rfl, hmet, hrest⟩ := ih h
            exact ⟨byte :: met, rest, rfl, .cons hwithin hmet, hrest⟩
          · rw [if_neg hwithin] at h
            exact absurd h (by simp)

/-- **The decoder accepts the encodings of texts** and nothing else. -/
theorem run_eq_some_nil {bytes : List UInt8} :
    run [] bytes = some [] ↔ ∃ text, bytes = encode text := by
  constructor
  · intro h
    induction hn : bytes.length using Nat.strongRecOn generalizing bytes with
    | _ n ih =>
      cases bytes with
      | nil => exact ⟨[], rfl⟩
      | cons byte bytes =>
          rw [run_cons] at h
          obtain ⟨owed, hlead, hrun⟩ := Option.bind_eq_some_iff.mp h
          obtain ⟨met, rest, rfl, hmet, hrest⟩ := met_of_run hrun
          obtain ⟨c, hc⟩ := exists_char_of_lead hlead hmet
          have hshorter : rest.length < n := by
            rw [← hn, List.length_cons, List.length_append]
            omega
          obtain ⟨text, rfl⟩ := ih rest.length hshorter hrest rfl
          refine ⟨c :: text, ?_⟩
          show byte :: (met ++ encode text) = String.utf8EncodeChar c ++ encode text
          rw [hc]
          rfl
  · rintro ⟨text, rfl⟩
    exact run_encode text

/-! ## The check of a sequence -/

/-- How much of the sequence is a text, and how many bytes are refused after that; `none` if the
sequence ends before its last character does. -/
structure Utf8Error where
  validUpTo : Nat
  errorLen : Option Nat
  deriving DecidableEq, Repr

/-- The check of the bytes that follow `upTo` bytes of whole characters and `seen` bytes of one
to which some are owed. -/
def checkFrom : Owed → Nat → Nat → List UInt8 → Except Utf8Error Unit
  | [], _, _, [] => .ok ()
  | _ :: _, upTo, _, [] => .error ⟨upTo, none⟩
  | owed, upTo, seen, byte :: bytes =>
    match step owed byte with
    | none => .error ⟨upTo, some (max 1 seen)⟩
    | some [] => checkFrom [] (upTo + seen + 1) 0 bytes
    | some owed => checkFrom owed upTo (seen + 1) bytes

/-- Is the sequence the encoding of a text? -/
def fromUtf8 (bytes : List UInt8) : Except Utf8Error Unit := checkFrom [] 0 0 bytes

/-- What a check may find, when the run over the sequence ends so. -/
inductive Found (bytes : List UInt8) : Option Owed → Except Utf8Error Unit → Prop
  | refused (upTo len : Nat) : Found bytes none (.error ⟨upTo, some len⟩)
  | text : Found bytes (some []) (.ok ())
  | unfinished {owed : Owed} (upTo : Nat) (hne : owed ≠ [])
      (hrun : run [] (bytes.drop upTo) = some owed) :
      Found bytes (some owed) (.error ⟨upTo, none⟩)

theorem checkFrom_found {owed : Owed} (whole seen : List UInt8) {rest : List UInt8}
    (hseen : run [] seen = some owed) :
    Found (whole ++ seen ++ rest) (run owed rest)
      (checkFrom owed whole.length seen.length rest) := by
  induction rest generalizing owed whole seen with
  | nil =>
      cases owed with
      | nil => exact .text
      | cons range owed =>
          refine .unfinished _ (List.cons_ne_nil _ _) ?_
          rw [List.append_nil, List.drop_left]
          exact hseen
  | cons byte rest ih =>
      have hmore : run [] (seen ++ [byte]) = step owed byte := by
        rw [run_append, hseen, Option.bind_some, run_cons]
        exact Option.bind_fun_some _
      rw [run_cons]
      cases hstep : step owed byte with
      | none =>
          rw [checkFrom.eq_def]
          simp only [hstep]
          exact .refused _ _
      | some owed' =>
          rw [hstep] at hmore
          cases owed' with
          | nil =>
              have hfound := ih (whole ++ seen ++ [byte]) [] rfl
              rw [checkFrom.eq_def]
              simpa [hstep, Nat.add_assoc] using hfound
          | cons range owed' =>
              have hfound := ih whole (seen ++ [byte]) hmore
              rw [checkFrom.eq_def]
              simpa [hstep] using hfound

/-- **The check finds what the run tells.** -/
theorem fromUtf8_found (bytes : List UInt8) : Found bytes (run [] bytes) (fromUtf8 bytes) :=
  checkFrom_found [] [] rfl

end Utf8
