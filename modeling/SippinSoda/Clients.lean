import SippinSoda.Forward
import SippinSoda.Tls.Gate

/-!
# Client authentication (`ProxyClientAuth` in `proxy.rs`)

What `accepts` accepts, over the grammar of the header: a scheme, a space, and a text that
decodes to the profile, a colon and the token.

* **new** — the profile and the digest of a token, both of restricted characters;
* **Presents** — the credentials a request carries in its first `Proxy-Authorization`;
* **accepts_iff** — `accepts` is exactly `Presents`, for a digest without collisions.
-/

namespace SippinSoda

/-- `ProxyClientAuth::new`. -/
def ProxyClientAuth.new (crypto : Crypto) (profileId token : Str) :
    Except String ProxyClientAuth := do
  let profileId ← TlsClientIdentity.validateId profileId
  if token.len < 32 || 128 < token.len || !token.all isIdChar then
    throw "Proxy client tokens must use 32-128 letters, numbers, '-' or '_'."
  return ⟨profileId, crypto.sha256 (utf8 token)⟩

/-- A `Basic` header value for a profile and a token. -/
def BasicCredentials (crypto : Crypto) (value profileId token : Str) : Prop :=
  ∃ scheme text, value = scheme ++ ' ' :: text ∧
    Str.toAsciiLowercase scheme = "basic".toList ∧
    crypto.base64Decode (Str.trim text) = some (utf8 profileId ++ 58 :: utf8 token)

/-- The first `Proxy-Authorization` of the headers holds these credentials. -/
def Presents (crypto : Crypto) (headers : HeaderMap) (profileId token : Str) : Prop :=
  ∃ value, (headers.get "proxy-authorization".toList).bind HeaderValue.toStr = some value ∧
    BasicCredentials crypto value profileId token

/-! ## The parts of a value -/

theorem drop_length_takeWhile {α : Type} (p : α → Bool) (l : List α) :
    l.drop (l.takeWhile p).length = l.dropWhile p := by
  have h : (l.takeWhile p ++ l.dropWhile p).drop (l.takeWhile p).length = l.dropWhile p :=
    List.drop_left
  rwa [List.takeWhile_append_dropWhile] at h

/-- What follows the part of a list before the first `a`: nothing, or `a` and the rest. -/
theorem eq_append_of_drop_takeWhile {α : Type} [DecidableEq α] {l rest : List α} {a b : α}
    (h : l.drop (l.takeWhile (· ≠ a)).length = b :: rest) :
    l = l.takeWhile (· ≠ a) ++ a :: rest := by
  rw [drop_length_takeWhile] at h
  have hhead := List.head?_dropWhile_not (fun x => decide (x ≠ a)) l
  rw [h] at hhead
  obtain rfl : b = a := by simpa using hhead
  conv_lhs => rw [← List.takeWhile_append_dropWhile (p := (· ≠ b)) (l := l), h]

theorem takeWhile_append_cons {α : Type} [DecidableEq α] {l r : List α} {a : α}
    (hl : a ∉ l) : (l ++ a :: r).takeWhile (· ≠ a) = l := by
  have hall : ∀ x ∈ l, decide (x ≠ a) = true := by
    intro x hx
    rw [decide_eq_true_eq]
    intro heq
    exact hl (heq ▸ hx)
  rw [List.takeWhile_append_of_pos hall, List.takeWhile_cons]
  simp

/-- A scheme that reads `basic` has no blank. -/
theorem blank_not_mem_scheme {scheme : Str} (h : Str.toAsciiLowercase scheme = "basic".toList) :
    ' ' ∉ scheme := by
  intro hc
  have hmem : ' ' ∈ Str.toAsciiLowercase scheme := List.mem_map.mpr ⟨' ', hc, rfl⟩
  rw [h] at hmem
  exact absurd hmem (by decide)

/-- The code of a character of a valid ID. -/
theorem toNat_of_isIdChar {c : Char} (h : isIdChar c = true) : c.toNat < 128 ∧ c.toNat ≠ 58 := by
  simp only [isIdChar, Str.isAsciiAlphanumeric, Bool.or_eq_true, Bool.and_eq_true,
    decide_eq_true_eq, beq_iff_eq, Char.le_def, UInt32.le_iff_toNat_le] at h
  rcases h with ((((h | h) | h) | rfl) | rfl)
  · change 48 ≤ c.toNat ∧ c.toNat ≤ 57 at h
    omega
  · change 65 ≤ c.toNat ∧ c.toNat ≤ 90 at h
    omega
  · change 97 ≤ c.toNat ∧ c.toNat ≤ 122 at h
    omega
  · decide
  · decide

/-- An ASCII character is one byte, its code. -/
theorem utf8EncodeChar_of_ascii {c : Char} (h : c.toNat < 128) :
    String.utf8EncodeChar c = [c.val.toUInt8] := by
  apply String.utf8EncodeChar_eq_singleton
  have hval : c.val ≤ 127 := UInt32.le_iff_toNat_le.mpr (Nat.lt_succ_iff.mp h)
  simp [Char.utf8Size, hval]

/-- The bytes of a valid ID have no colon. -/
theorem colon_not_mem_utf8 {id : Str} (h : id.all isIdChar = true) : 58 ∉ utf8 id := by
  intro hmem
  obtain ⟨c, hc, hbyte⟩ := List.mem_flatMap.mp hmem
  obtain ⟨hascii, hne⟩ := toNat_of_isIdChar (List.all_eq_true.mp h c hc)
  rw [utf8EncodeChar_of_ascii hascii, List.mem_singleton] at hbyte
  have hcode := congrArg UInt8.toNat hbyte
  rw [UInt32.toNat_toUInt8] at hcode
  change 58 = c.toNat % 256 at hcode
  omega

/-! ## What `accepts` accepts -/

/-- What `new` makes: a valid profile and the digest of the token. -/
theorem ProxyClientAuth.new_ok {crypto : Crypto} {profileId token : Str} {auth : ProxyClientAuth}
    (h : ProxyClientAuth.new crypto profileId token = .ok auth) :
    auth.profileId = Str.trim profileId ∧ auth.profileId.all isIdChar = true ∧
      auth.tokenSha256 = crypto.sha256 (utf8 token) := by
  obtain ⟨id, hid, h⟩ := Except.bind_eq_ok.mp h
  obtain ⟨rfl, hvalid⟩ := TlsClientIdentity.validateId_ok hid
  simp only at h
  split at h
  · cases h
  cases h
  simp only [validId, Bool.and_eq_true] at hvalid
  exact ⟨rfl, hvalid.2, rfl⟩

/-- The digest of a token has no collision with the token of the run. -/
def Crypto.SeparatesToken (crypto : Crypto) (token : Str) : Prop :=
  ∀ bytes, crypto.sha256 bytes = crypto.sha256 (utf8 token) → bytes = utf8 token

/-- `accepts` accepts the credentials of its profile and token, and nothing else. -/
theorem ProxyClientAuth.accepts_iff {crypto : Crypto} {profileId token : Str}
    {auth : ProxyClientAuth} (hnew : ProxyClientAuth.new crypto profileId token = .ok auth)
    (hsha : crypto.SeparatesToken token) (headers : HeaderMap) :
    auth.accepts crypto headers = true ↔ Presents crypto headers auth.profileId token := by
  obtain ⟨-, hid, hdigest⟩ := ProxyClientAuth.new_ok hnew
  unfold accepts Presents
  cases hget : (headers.get "proxy-authorization".toList).bind HeaderValue.toStr with
  | none =>
      refine ⟨fun h => (nomatch h), ?_⟩
      rintro ⟨value, hvalue, -⟩
      cases hvalue
  | some value =>
      simp only [Option.some.injEq, exists_eq_left']
      constructor
      · intro h
        split at h
        · cases h
        next blank text hdrop =>
          have hvalue := eq_append_of_drop_takeWhile hdrop
          split at h
          · cases h
          next hscheme =>
            split at h
            · cases h
            next decoded hdecoded =>
              split at h
              · cases h
              next colon token' hcolon =>
                have hparts := eq_append_of_drop_takeWhile hcolon
                rw [Bool.and_eq_true, beq_iff_eq, beq_iff_eq, hdigest] at h
                refine ⟨_, text, hvalue, by simpa using hscheme, ?_⟩
                rw [hdecoded, hparts, h.1, hsha _ h.2]
      · rintro ⟨scheme, text, rfl, hscheme, hdecoded⟩
        have hblank := blank_not_mem_scheme hscheme
        simp only [takeWhile_append_cons hblank, List.drop_left, hscheme, hdecoded,
          takeWhile_append_cons (colon_not_mem_utf8 hid)]
        simp [hdigest]

/-- A value with the credentials after the scheme as clients write it. -/
theorem basicCredentials_of_decode {crypto : Crypto} {profileId token text : Str}
    (htext : ∀ c ∈ text, Str.isWhitespace c = false)
    (hdecode : crypto.base64Decode text = some (utf8 profileId ++ 58 :: utf8 token)) :
    BasicCredentials crypto ("Basic ".toList ++ text) profileId token := by
  refine ⟨"Basic".toList, text, rfl, by decide, ?_⟩
  rwa [Str.trim_eq_self htext]

/-! ## A client

The functions of the other crates, on the inputs of one client.
-/

/-- The value of a character of the standard alphabet. -/
def base64Value (c : Char) : Option Nat :=
  if 'A' ≤ c ∧ c ≤ 'Z' then some (c.toNat - 65)
  else if 'a' ≤ c ∧ c ≤ 'z' then some (c.toNat - 71)
  else if '0' ≤ c ∧ c ≤ '9' then some (c.toNat + 4)
  else if c = '+' then some 62
  else if c = '/' then some 63
  else none

/-- Standard Base64 with canonical padding. -/
def standardDecode : Str → Option (List UInt8)
  | [] => some []
  | [a, b, '=', '='] => do
      let a ← base64Value a
      let b ← base64Value b
      if b % 16 = 0 then some [UInt8.ofNat (a * 4 + b / 16)] else none
  | [a, b, c, '='] => do
      let a ← base64Value a
      let b ← base64Value b
      let c ← base64Value c
      if c % 4 = 0 then
        some [UInt8.ofNat (a * 4 + b / 16), UInt8.ofNat (b % 16 * 16 + c / 4)]
      else none
  | a :: b :: c :: d :: rest => do
      let a ← base64Value a
      let b ← base64Value b
      let c ← base64Value c
      let d ← base64Value d
      let bytes ← standardDecode rest
      some (UInt8.ofNat (a * 4 + b / 16) :: UInt8.ofNat (b % 16 * 16 + c / 4) ::
        UInt8.ofNat (c % 4 * 64 + d) :: bytes)
  | _ => none

/-- A token, and its digest. -/
def sampleToken : Str := "development-token-0123456789-abcdef".toList

def sampleDigest : List UInt8 :=
  [125, 250, 111, 167, 118, 255, 214, 167, 20, 148, 41, 54, 196, 229, 171, 197,
      131, 204, 181, 62, 116, 196, 238, 219, 203, 14, 142, 193, 47, 99, 89, 205]

/-- The decoder, and the digest on the token; other texts get digests of their own. -/
def Crypto.sample : Crypto where
  base64Decode := standardDecode
  sha256 bytes := if bytes = utf8 sampleToken then sampleDigest else 0 :: bytes

theorem Crypto.sample_separates : Crypto.sample.SeparatesToken sampleToken := by
  intro bytes h
  by_cases hbytes : bytes = utf8 sampleToken
  · exact hbytes
  · have hself : Crypto.sample.sha256 (utf8 sampleToken) = sampleDigest := by
      simp [Crypto.sample]
    have hother : Crypto.sample.sha256 bytes = 0 :: bytes := by
      simp [Crypto.sample, hbytes]
    rw [hself, hother, sampleDigest] at h
    cases h

/-- The client of that token. -/
def sampleAuth : ProxyClientAuth := ⟨"browser-1".toList, sampleDigest⟩

/-- Its credentials as a header. -/
def sampleCredentials : Str := "Basic YnJvd3Nlci0xOmRldmVsb3BtZW50LXRva2VuLTAxMjM0NTY3ODktYWJjZGVm".toList

theorem sampleAuth_new :
    ProxyClientAuth.new .sample "browser-1".toList sampleToken = .ok sampleAuth := by
  decide +kernel

end SippinSoda
