import SippinSoda.Redact

/-!
# Request-body inspection (`RequestBody` in `proxy.rs`)

A request body is forwarded frame by frame. With recording on, the data frames of a JSON
request are also collected, up to 1 MiB, and at the end of the stream handed to
`store_redacted_json`, which stores a redacted copy.

A transfer is the list of results `poll_frame` of the incoming body returns, each frame
with what `is_end_stream` answers right after it. The effects of a poll on the rest of
the engine are listed in the order the source performs them.

* `pollAll_storeOps` — over a whole transfer, the store operations started;
* `request_secrets_stay_out_of_storage` — what that means for two runs that differ only
  in redacted positions.
-/

namespace SippinSoda

/-- The result of one `poll_frame`; a frame comes with `is_end_stream` after it. -/
inductive Poll where
  | pending
  | frame (frame : Frame) (endOfStream : Bool)
  | done
  | error
  deriving DecidableEq, Repr

/-- What polling a request body does to its exchange and to the request store. -/
inductive BodyEffect where
  /-- `capture.request_bytes += n`. -/
  | requestBytes (n : Nat)
  /-- `exchange.finish(Some(message))`. -/
  | finish (message : String)
  /-- `capture.request_body_error = Some(message)`. -/
  | requestBodyError (message : String)
  /-- Spawn `store_redacted_json` on the collected bytes. -/
  | store (bytes : List UInt8)
  deriving DecidableEq, Repr

structure RequestBody where
  capture : Option (List UInt8)
  contentType : Str
  limit : Nat
  redactionPaths : List (List Str)

/-- The limit of safe inspection: 1 MiB. -/
def requestLimit : Nat := 1024 * 1024

/-- `request_is_json` of a lower-cased content type. -/
def requestIsJson (contentType : Str) : Bool :=
  let kind := Str.trim ((contentType.splitOn ';').headD [])
  kind == "application/json".toList || "+json".toList.isSuffixOf kind

/-- The body `forward_with_sender` builds, one for each exchange it forwards. -/
def RequestBody.new (captureRequest requestHasBody : Bool) (contentType : Str)
    (paths : List (List Str)) : RequestBody where
  capture := if captureRequest && requestHasBody && requestIsJson contentType then some []
    else none
  contentType := contentType
  limit := requestLimit
  redactionPaths := paths

/-- `ObservedBody::poll_frame` of a request. -/
def observed : Poll → List BodyEffect
  | .frame (.data bytes) _ => [.requestBytes bytes.length]
  | .error => [.finish "Body transfer failed."]
  | _ => []

/-- `finish_capture`. -/
def RequestBody.finishCapture (body : RequestBody) : RequestBody × List BodyEffect :=
  match body.capture with
  | none => (body, [])
  | some bytes =>
      ({ body with capture := none }, if bytes.isEmpty then [] else [.store bytes])

/-- The part of `poll_frame` that collects a frame. -/
def RequestBody.collect (body : RequestBody) : Frame → RequestBody × List BodyEffect
  | .trailers => (body, [])
  | .data bytes =>
    match body.capture with
    | none => (body, [])
    | some buffer =>
        if buffer.length + bytes.length ≤ body.limit then
          ({ body with capture := some (buffer ++ bytes) }, [])
        else
          ({ body with capture := none }, [.requestBodyError
            "Request body exceeds the 1 MiB safe inspection limit; original bytes were forwarded but not recorded."])

/-- `RequestBody::poll_frame`, given what polling the incoming body returned. The result
itself is passed on unchanged. -/
def RequestBody.pollFrame (body : RequestBody) : Poll → RequestBody × List BodyEffect
  | .pending => (body, [])
  | .frame frame endOfStream =>
      let (collected, effects) := body.collect frame
      let (finished, stores) :=
        if endOfStream then collected.finishCapture else (collected, [])
      (finished, observed (.frame frame endOfStream) ++ effects ++ stores)
  | .done => body.finishCapture
  | .error => ({ body with capture := none }, observed .error ++ [.requestBodyError
      "Request body transfer failed before it could be inspected."])

/-- All the polls of a transfer, and their effects in order. -/
def RequestBody.pollAll (body : RequestBody) : List Poll → RequestBody × List BodyEffect
  | [] => (body, [])
  | poll :: rest =>
      let (body, effects) := body.pollFrame poll
      let (body, later) := body.pollAll rest
      (body, effects ++ later)

/-- The store operations among the effects. -/
def storeOps (effects : List BodyEffect) : List (List UInt8) :=
  effects.filterMap fun
    | .store bytes => some bytes
    | _ => none

/-! ## The store operation -/

/-- What the blocking closure of a store operation meets: the session budget at the
moment it reserves, and how its file operations end. -/
structure StorageEnv where
  used : Nat
  limit : Nat
  creates : Bool
  writes : Bool
  flushes : Bool

/-- What a store operation hands to its temporary file, and what it returns: the bytes of
the entry it inserts, or the error. -/
structure StoreOutcome where
  handed : Option (List UInt8)
  result : Except String (List UInt8)

variable {ν : Type}

/-- `store_redacted_json`. -/
def storeRedactedJson (serde : Serde ν) (paths : List (List Str)) (env : StorageEnv)
    (bytes : List UInt8) : StoreOutcome :=
  match serde.fromSlice bytes with
  | none => ⟨none, .error
      "Request JSON is invalid or incomplete; original bytes were forwarded but not recorded."⟩
  | some value =>
    let safe := serde.toVecPretty (redacted serde.toLowercase paths value)
    if env.limit < env.used + safe.length then
      ⟨none, .error "Session disk budget reached; redacted request body was not recorded."⟩
    else if !env.creates then ⟨none, .error "Cannot create redacted request storage."⟩
    else if !env.writes then ⟨some safe, .error "Cannot write redacted request storage."⟩
    else if !env.flushes then ⟨some safe, .error "Cannot flush redacted request storage."⟩
    else ⟨some safe, .ok safe⟩

/-- The outcomes of the store operations of a transfer. -/
def RequestBody.outcomes (serde : Serde ν) (env : StorageEnv) (body : RequestBody)
    (polls : List Poll) : List StoreOutcome :=
  (storeOps (body.pollAll polls).2).map (storeRedactedJson serde body.redactionPaths env)

/-- The bytes handed to temporary storage in a transfer. -/
def RequestBody.handed (serde : Serde ν) (env : StorageEnv) (body : RequestBody)
    (polls : List Poll) : List (List UInt8) :=
  (body.outcomes serde env polls).filterMap StoreOutcome.handed

/-- The entries inserted in the request store in a transfer. -/
def RequestBody.inserted (serde : Serde ν) (env : StorageEnv) (body : RequestBody)
    (polls : List Poll) : List (List UInt8) :=
  (body.outcomes serde env polls).filterMap fun outcome => outcome.result.toOption

/-! ## Transfers -/

/-- How a transfer has ended so far. -/
inductive Ending where
  | unfinished
  | clean
  | failed
  deriving DecidableEq, Repr

/-- A transfer ends cleanly with a frame marked as the last one or with `None`. -/
def ending : List Poll → Ending
  | [] => .unfinished
  | .pending :: rest => ending rest
  | .frame _ false :: rest => ending rest
  | .frame _ true :: _ => .clean
  | .done :: _ => .clean
  | .error :: _ => .failed

/-- A poll that yields nothing. -/
def Poll.quiet : Poll → Bool
  | .pending | .done => true
  | _ => false

/-- The `Body` contract: nothing is yielded after the end of the stream or an error. -/
def Legal : List Poll → Bool
  | [] => true
  | .pending :: rest => Legal rest
  | .frame _ false :: rest => Legal rest
  | .frame _ true :: rest => rest.all Poll.quiet
  | .done :: rest => rest.all Poll.quiet
  | .error :: rest => rest.all Poll.quiet

/-- The concatenated bytes of a transfer. -/
def dataOf (polls : List Poll) : List UInt8 :=
  polls.flatMap fun
    | .frame frame _ => frame.bytes
    | _ => []

theorem dataOf_quiet {polls : List Poll} (h : polls.all Poll.quiet = true) :
    dataOf polls = [] := by
  rw [dataOf, List.flatMap_eq_nil_iff]
  intro poll hmem
  have hq := List.all_eq_true.mp h poll hmem
  cases poll with
  | frame => simp [Poll.quiet] at hq
  | _ => rfl

/-! ## The store operations of a transfer -/

@[simp] theorem storeOps_append (a b : List BodyEffect) :
    storeOps (a ++ b) = storeOps a ++ storeOps b :=
  List.filterMap_append

@[simp] theorem storeOps_observed (poll : Poll) : storeOps (observed poll) = [] := by
  rcases poll with _ | ⟨_ | _, _⟩ | _ | _ <;> rfl

/-- Without a buffer nothing is ever stored. -/
theorem pollAll_uncaptured : ∀ (polls : List Poll) (body : RequestBody),
    body.capture = none → storeOps (body.pollAll polls).2 = [] := by
  intro polls
  induction polls with
  | nil => intro body _; rfl
  | cons poll rest ih =>
      intro body hnone
      have hstep : (body.pollFrame poll).1.capture = none ∧
          storeOps (body.pollFrame poll).2 = [] := by
        rcases poll with _ | ⟨_ | _, _ | _⟩ | _ | _ <;>
          simp [RequestBody.pollFrame, RequestBody.collect, RequestBody.finishCapture, hnone] <;>
          rfl
      rw [RequestBody.pollAll]
      simp only [storeOps_append, hstep.2, ih _ hstep.1, List.append_nil]

/-- What `finish_capture` stores. -/
def stored (bytes : List UInt8) : List (List UInt8) := if bytes.isEmpty then [] else [bytes]

theorem finishCapture_some {body : RequestBody} {bytes : List UInt8}
    (h : body.capture = some bytes) :
    (body.finishCapture).1.capture = none ∧
      storeOps (body.finishCapture).2 = stored bytes := by
  rw [RequestBody.finishCapture, h]
  cases bytes <;> exact ⟨rfl, rfl⟩

/-- **The store operations of a legal transfer**: the whole body, once, when it ended
cleanly within the limit and is not empty; none otherwise. The induction is on the
transfer, with what has been collected so far as its accumulator. -/
theorem pollAll_storeOps : ∀ (polls : List Poll) (body : RequestBody) (buffer : List UInt8),
    Legal polls = true → body.capture = some buffer → buffer.length ≤ body.limit →
    storeOps (body.pollAll polls).2 =
      if ending polls = .clean ∧ (buffer ++ dataOf polls).length ≤ body.limit then
        stored (buffer ++ dataOf polls)
      else [] := by
  intro polls
  induction polls with
  | nil => intro body buffer _ _ _; simp [RequestBody.pollAll, ending, storeOps]
  | cons poll rest ih =>
      intro body buffer hlegal hcap hlen
      cases poll with
      | pending =>
          simpa [RequestBody.pollAll, RequestBody.pollFrame, ending, dataOf, storeOps] using
            ih body buffer hlegal hcap hlen
      | done =>
          obtain ⟨hnone, hops⟩ := finishCapture_some hcap
          have hrest := dataOf_quiet hlegal
          simp only [RequestBody.pollAll, RequestBody.pollFrame, storeOps_append, hops,
            pollAll_uncaptured rest _ hnone, List.append_nil, ending]
          have hdata : dataOf (Poll.done :: rest) = [] := by simpa [dataOf] using hrest
          simp [hdata, hlen]
      | error =>
          have hnone := pollAll_uncaptured rest { body with capture := none } rfl
          simp only [RequestBody.pollAll, RequestBody.pollFrame, storeOps_append,
            storeOps_observed, hnone, ending]
          simp [storeOps]
      | frame frame last =>
          -- the bytes collected by this frame, or the overflow that drops the buffer
          have hcons : buffer ++ dataOf (Poll.frame frame last :: rest)
              = (buffer ++ frame.bytes) ++ dataOf rest := by
            simp [dataOf, List.append_assoc]
          have hcollect : (body.collect frame).2 = [] ∧
              (body.collect frame).1 = { body with capture := some (buffer ++ frame.bytes) } ∧
                (buffer ++ frame.bytes).length ≤ body.limit ∨
              (∃ message, (body.collect frame).2 = [.requestBodyError message]) ∧
              (body.collect frame).1.capture = none ∧
                body.limit < (buffer ++ frame.bytes).length := by
            cases frame with
            | trailers =>
                refine .inl ⟨rfl, ?_, by simpa [Frame.bytes] using hlen⟩
                obtain ⟨_, _, _, _⟩ := body
                simp only at hcap
                simp [RequestBody.collect, Frame.bytes, hcap]
            | data bytes =>
                by_cases hfits : buffer.length + bytes.length ≤ body.limit
                · exact .inl ⟨by simp [RequestBody.collect, hcap, hfits],
                    by simp [RequestBody.collect, hcap, hfits, Frame.bytes],
                    by simpa [Frame.bytes] using hfits⟩
                · exact .inr ⟨⟨_, by simp [RequestBody.collect, hcap, hfits]; rfl⟩,
                    by simp [RequestBody.collect, hcap, hfits],
                    by simpa [Frame.bytes] using hfits⟩
          rw [hcons]
          rcases hcollect with ⟨heff, hbody, hfits⟩ | ⟨⟨message, heff⟩, hnone, hover⟩
          · cases last with
            | true =>
                obtain ⟨hdrop, hops⟩ :=
                  finishCapture_some (by rw [hbody] : (body.collect frame).1.capture = _)
                have hrest := dataOf_quiet hlegal
                simp only [RequestBody.pollAll, RequestBody.pollFrame, if_true, heff,
                  storeOps_append, storeOps_observed, hops,
                  pollAll_uncaptured rest _ hdrop, ending, hrest, List.append_nil]
                rw [if_pos ⟨trivial, hfits⟩]
                rfl
            | false =>
                have hnext := ih (body.collect frame).1 (buffer ++ frame.bytes) hlegal
                  (by rw [hbody]) (by rw [hbody]; exact hfits)
                have hlimit : (body.collect frame).1.limit = body.limit := by rw [hbody]
                simp only [RequestBody.pollAll, RequestBody.pollFrame, heff, ending,
                  storeOps_append, storeOps_observed, Bool.false_eq_true, if_false,
                  List.append_nil, hnext, hlimit]
                rfl
          · -- over the limit: the buffer is gone, and the total stays over the limit
            have hdrop : ∀ b : RequestBody × List BodyEffect,
                b = (if last then (body.collect frame).1.finishCapture
                  else ((body.collect frame).1, [])) → b.1.capture = none ∧ b.2 = [] := by
              rintro b rfl
              cases last <;> simp [RequestBody.finishCapture, hnone]
            obtain ⟨hgone, hempty⟩ := hdrop _ rfl
            simp only [RequestBody.pollAll, RequestBody.pollFrame, storeOps_append,
              storeOps_observed, heff, hempty, pollAll_uncaptured rest _ hgone]
            rw [if_neg (fun h => by
              have := h.2
              simp only [List.length_append] at this hover
              omega)]
            rfl

/-- At most one store operation starts, whatever the polls return. -/
theorem pollAll_storeOps_le_one : ∀ (polls : List Poll) (body : RequestBody),
    (storeOps (body.pollAll polls).2).length ≤ 1 := by
  intro polls
  induction polls with
  | nil => intro body; simp [RequestBody.pollAll, storeOps]
  | cons poll rest ih =>
      intro body
      -- a poll stores nothing, or stores once and leaves no buffer
      have hstep : storeOps (body.pollFrame poll).2 = [] ∨
          (body.pollFrame poll).1.capture = none ∧
            (storeOps (body.pollFrame poll).2).length ≤ 1 := by
        have hfinish : ∀ b : RequestBody, b.finishCapture.1.capture = none ∧
            (storeOps b.finishCapture.2).length ≤ 1 := by
          intro b
          cases hcap : b.capture with
          | none => simp [RequestBody.finishCapture, hcap, storeOps]
          | some bytes =>
              obtain ⟨hnone, hops⟩ := finishCapture_some hcap
              refine ⟨hnone, ?_⟩
              rw [hops, stored]
              split <;> simp
        have hcollect : ∀ frame, storeOps (body.collect frame).2 = [] := by
          intro frame
          cases frame with
          | trailers => rfl
          | data bytes =>
              rw [RequestBody.collect]
              split
              · rfl
              · split <;> rfl
        cases poll with
        | pending => exact .inl rfl
        | done => exact .inr (hfinish body)
        | error => exact .inl rfl
        | frame frame last =>
            cases last with
            | false =>
                refine .inl ?_
                simp [RequestBody.pollFrame, hcollect]
            | true =>
                refine .inr ?_
                simpa [RequestBody.pollFrame, hcollect] using hfinish (body.collect frame).1
      rw [RequestBody.pollAll]
      simp only [storeOps_append, List.length_append]
      rcases hstep with hnil | ⟨hnone, hone⟩
      · rw [hnil]
        simpa using ih _
      · rw [pollAll_uncaptured rest _ hnone]
        simpa using hone

/-- What one store operation does depends on the redacted copy alone. -/
theorem storeRedactedJson_congr {serde : Serde ν} {paths : List (List Str)}
    {env : StorageEnv} {a b : List UInt8} {v w : Value ν} (ha : serde.fromSlice a = some v)
    (hb : serde.fromSlice b = some w) (h : AgreeOutside serde.toLowercase paths v w) :
    storeRedactedJson serde paths env a = storeRedactedJson serde paths env b := by
  simp only [storeRedactedJson, ha, hb, redacted_congr h]

/-- A body that parses is not empty, since `serde_json` refuses empty input. -/
theorem stored_of_parsed {serde : Serde ν} (hempty : serde.fromSlice [] = none)
    {bytes : List UInt8} {value : Value ν} (h : serde.fromSlice bytes = some value) :
    stored bytes = [bytes] := by
  cases bytes with
  | nil => rw [hempty] at h; cases h
  | cons => rfl

/-- **Request secrets stay out of storage.** Two transfers that end cleanly within the
limit, however fragmented, and whose JSON agrees outside the sensitive members and the
selected positions, hand the same bytes to temporary storage and insert the same entry. A
transfer that is too long, fails, or is not JSON inserts nothing. No transfer starts more
than one store operation. -/
theorem request_secrets_stay_out_of_storage (serde : Serde ν)
    (hempty : serde.fromSlice [] = none) (captureRequest requestHasBody : Bool)
    (contentType : Str) (paths : List (List Str)) :
    let body := RequestBody.new captureRequest requestHasBody contentType paths
    (∀ (env : StorageEnv) (p q : List Poll) (v w : Value ν),
      Legal p = true → Legal q = true → ending p = .clean → ending q = .clean →
      (dataOf p).length ≤ requestLimit → (dataOf q).length ≤ requestLimit →
      serde.fromSlice (dataOf p) = some v → serde.fromSlice (dataOf q) = some w →
      AgreeOutside serde.toLowercase paths v w →
      body.handed serde env p = body.handed serde env q ∧
        body.inserted serde env p = body.inserted serde env q) ∧
    (∀ (env : StorageEnv) (p : List Poll), Legal p = true →
      requestLimit < (dataOf p).length ∨ ending p = .failed ∨
        serde.fromSlice (dataOf p) = none →
      body.inserted serde env p = []) ∧
    (∀ p : List Poll, (storeOps (body.pollAll p).2).length ≤ 1) := by
  intro body
  have hpaths : body.redactionPaths = paths := rfl
  have hlimit : body.limit = requestLimit := rfl
  refine ⟨?_, ?_, fun p => pollAll_storeOps_le_one p body⟩
  · intro env p q v w hp hq hpc hqc hpl hql hpv hqw hagree
    suffices hsame : body.outcomes serde env p = body.outcomes serde env q by
      simp only [RequestBody.handed, RequestBody.inserted, hsame, and_self]
    cases hcap : body.capture with
    | none =>
        simp only [RequestBody.outcomes, pollAll_uncaptured p body hcap,
          pollAll_uncaptured q body hcap]
    | some buffer =>
        obtain rfl : buffer = [] := by
          simp only [body, RequestBody.new] at hcap
          split at hcap <;> simp_all
        have hops : ∀ r, Legal r = true → ending r = .clean →
            (dataOf r).length ≤ requestLimit →
            storeOps (body.pollAll r).2 = stored (dataOf r) := by
          intro r hr hrc hrl
          rw [pollAll_storeOps r body [] hr hcap (Nat.zero_le _), List.nil_append,
            if_pos ⟨hrc, hlimit ▸ hrl⟩]
        simp only [RequestBody.outcomes, hops p hp hpc hpl, hops q hq hqc hql,
          stored_of_parsed hempty hpv, stored_of_parsed hempty hqw, List.map_cons,
          List.map_nil, hpaths, storeRedactedJson_congr hpv hqw hagree]
  · intro env p hp hbad
    cases hcap : body.capture with
    | none => simp [RequestBody.inserted, RequestBody.outcomes, pollAll_uncaptured p body hcap]
    | some buffer =>
        obtain rfl : buffer = [] := by
          simp only [body, RequestBody.new] at hcap
          split at hcap <;> simp_all
        have hops := pollAll_storeOps p body [] hp hcap (Nat.zero_le _)
        rw [List.nil_append] at hops
        by_cases hfit : ending p = .clean ∧ (dataOf p).length ≤ body.limit
        · -- only a body that does not parse is left, and its operation returns an error
          rw [if_pos hfit] at hops
          have hnone : serde.fromSlice (dataOf p) = none := by
            rcases hbad with hlong | hfailed | hnone
            · rw [hlimit] at hfit
              omega
            · rw [hfit.1] at hfailed
              cases hfailed
            · exact hnone
          rw [RequestBody.inserted, RequestBody.outcomes, hops, stored]
          split
          · rfl
          · simp [storeRedactedJson, hnone, Except.toOption]
        · rw [if_neg hfit] at hops
          simp [RequestBody.inserted, RequestBody.outcomes, hops]

/-- A `serde_json` that knows the two bodies `{"token":"a"}` and `{"token":"b"}`. -/
def tokenSerde : Serde Unit where
  fromSlice bytes :=
    if bytes = [123, 34, 116, 111, 107, 101, 110, 34, 58, 34, 97, 34, 125] then
      some (.object [("token".toList, .string ['a'])])
    else if bytes = [123, 34, 116, 111, 107, 101, 110, 34, 58, 34, 98, 34, 125] then
      some (.object [("token".toList, .string ['b'])])
    else none
  toVecPretty
    -- the bytes of `{"token": "[REDACTED]"}`, on two indented lines
    | .object [(_, .string text)] => [123, 10, 32, 32, 34, 116, 111, 107, 101, 110, 34, 58, 32,
        34] ++ text.map (fun c => UInt8.ofNat c.toNat) ++ [34, 10, 125]
    | _ => []
  toLowercase c := [Str.lowerAscii c]

/-- Two tokens, one sent in two frames and one in three, reach storage as the same bytes. -/
theorem request_tokens_stay_out_of_storage :
    let body := RequestBody.new true true "application/json".toList []
    let env : StorageEnv := ⟨0, 1024, true, true, true⟩
    let p : List Poll := [.frame (.data [123, 34, 116, 111]) false, .pending,
      .frame (.data [107, 101, 110, 34, 58, 34, 97, 34, 125]) true]
    let q : List Poll := [.frame (.data [123]) false, .frame (.data [34, 116, 111, 107, 101]) false,
      .frame (.data [110, 34, 58, 34, 98, 34, 125]) false, .done]
    body.handed tokenSerde env p = body.handed tokenSerde env q :=
  (((request_secrets_stay_out_of_storage tokenSerde (by decide) true true
    "application/json".toList []).1) ⟨0, 1024, true, true, true⟩ _ _
    (.object [("token".toList, .string ['a'])]) (.object [("token".toList, .string ['b'])])
    (by decide) (by decide) (by decide) (by decide) (by decide) (by decide) rfl rfl
    (.object rfl (by
      -- the one member is sensitive
      intro i key v w hv hw hs
      rcases i with _ | i
      · obtain ⟨rfl, -⟩ : "token".toList = key ∧ _ := by simpa using hv
        exact absurd hs (by decide)
      · simp at hv))).1

end SippinSoda
