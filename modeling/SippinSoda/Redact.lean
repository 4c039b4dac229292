import SippinSoda.Basic

/-!
# Redaction of request JSON (`proxy/bodies.rs`)

The inspection copy of a JSON request is parsed, its sensitive members are overwritten
(`redact_json`), each configured pointer is overwritten in turn (`redact_path`), and the
result is printed. `serde_json` itself is a parameter (`Serde`).

The main result, `redacted_congr`, is the two-run form of exactness: two values that
agree outside the sensitive members and the positions the pointers select have the same
redacted copy. It rests on one fact about the sequence of rewrites: at an array or an
object, applying pointers one after another to the whole is applying to each child the
tails of the pointers that step into it (`applyPaths_array`, `applyPaths_object`).
-/

namespace SippinSoda

/-- `serde_json::Value` over its number type. An object lists its members in map order;
the map keeps keys distinct. -/
inductive Value (ν : Type) where
  | null
  | bool (b : Bool)
  | number (n : ν)
  | string (s : Str)
  | array (values : List (Value ν))
  | object (members : List (Str × Value ν))

/-- The parts of `serde_json` and of the Unicode tables the redaction relies on, each a
deterministic function. -/
structure Serde (ν : Type) where
  /-- `serde_json::from_slice`. -/
  fromSlice : List UInt8 → Option (Value ν)
  /-- `serde_json::to_vec_pretty`, which cannot fail on a `Value`. -/
  toVecPretty : Value ν → List UInt8
  /-- `char::to_lowercase`. -/
  toLowercase : Char → Str

/-- The text that replaces a redacted value. -/
def redactedText : Str := "[REDACTED]".toList

/-- The built-in sensitive keys, in normalized form. -/
def sensitiveKeys : List Str :=
  ["authorization", "password", "passwd", "token", "accesstoken", "refreshtoken", "apikey",
    "secret", "clientsecret", "cookie", "session"].map String.toList

/-- The key without `-`, `_` and `.`, in lower case. -/
def normalizedKey (toLowercase : Char → Str) (key : Str) : Str :=
  (key.filter fun c => !(c == '-' || c == '_' || c == '.')).flatMap toLowercase

def isSensitive (toLowercase : Char → Str) (key : Str) : Bool :=
  sensitiveKeys.contains (normalizedKey toLowercase key)

variable {ν : Type}

mutual

/-- `redact_json`. -/
def redactJson (toLowercase : Char → Str) : Value ν → Value ν
  | .object members => .object (redactMembers toLowercase members)
  | .array values => .array (redactValues toLowercase values)
  | value => value

/-- The loop over an array's elements. -/
def redactValues (toLowercase : Char → Str) : List (Value ν) → List (Value ν)
  | [] => []
  | value :: rest => redactJson toLowercase value :: redactValues toLowercase rest

/-- The loop over an object's members. -/
def redactMembers (toLowercase : Char → Str) : List (Str × Value ν) → List (Str × Value ν)
  | [] => []
  | member :: rest => redactMember toLowercase member :: redactMembers toLowercase rest

/-- One member: overwritten when its key is sensitive, redacted inside otherwise. -/
def redactMember (toLowercase : Char → Str) : Str × Value ν → Str × Value ν
  | (key, value) =>
    (key, if isSensitive toLowercase key then .string redactedText
      else redactJson toLowercase value)

end

/-- Does `segment` step into the member of this key? -/
def stepsIntoKey (segment key : Str) : Bool := segment == ['*'] || segment == key

/-- Does `segment` step into the element of this index? -/
def stepsIntoIndex (segment : Str) (index : Nat) : Bool :=
  segment == ['*'] || Str.parseUsize segment == some index

/-- `redact_path`. `get_mut` reaches the member of that key, or the element of that
index, if there is one; `*` reaches all of them. -/
def redactPath : List Str → Value ν → Value ν
  | [], _ => .string redactedText
  | segment :: remaining, .object members =>
      .object (members.map fun m =>
        if stepsIntoKey segment m.1 then (m.1, redactPath remaining m.2) else m)
  | segment :: remaining, .array values =>
      .array (values.mapIdx fun i value =>
        if stepsIntoIndex segment i then redactPath remaining value else value)
  | _ :: _, value => value

/-- `for path in &redaction_paths { redact_path(&mut value, path) }`. -/
def applyPaths (paths : List (List Str)) (value : Value ν) : Value ν :=
  paths.foldl (fun value path => redactPath path value) value

/-- The redacted copy of a parsed body, as `store_redacted_json` computes it. -/
def redacted (toLowercase : Char → Str) (paths : List (List Str)) (value : Value ν) :
    Value ν :=
  applyPaths paths (redactJson toLowercase value)

/-! ## Compiling the configured pointers -/

/-- `decode_pointer_segment`. -/
def decodePointerSegment : Str → Except String Str
  | [] => .ok []
  | '~' :: '0' :: rest => (decodePointerSegment rest).map ('~' :: ·)
  | '~' :: '1' :: rest => (decodePointerSegment rest).map ('/' :: ·)
  | '~' :: _ => .error "Redaction paths contain an invalid JSON Pointer escape."
  | c :: rest => (decodePointerSegment rest).map (c :: ·)

/-- One configured path, trimmed, as its reference tokens. -/
def compileRedactionPath (path : Str) : Except String (List Str) :=
  if path.len > 512 ∨ ¬ ['/'].isPrefixOf path then
    .error "Redaction paths must be JSON Pointers beginning with '/' and at most 512 characters."
  else ((path.drop 1).splitOn '/').mapM decodePointerSegment

/-- `compile_redaction_paths`. -/
def compileRedactionPaths (paths : List Str) : Except String (List (List Str)) :=
  if paths.length > 64 then
    .error "At most 64 custom request redaction paths are allowed."
  else (paths.filter fun path => !path.trim.isEmpty).mapM fun path =>
    compileRedactionPath path.trim

/-! ## Agreement outside the redacted positions -/

/-- The tails of the paths that step into the member of this key. -/
def intoKey (key : Str) (paths : List (List Str)) : List (List Str) :=
  paths.filterMap fun
    | [] => none
    | segment :: remaining => if stepsIntoKey segment key then some remaining else none

/-- The tails of the paths that step into the element of this index. -/
def intoIndex (index : Nat) (paths : List (List Str)) : List (List Str) :=
  paths.filterMap fun
    | [] => none
    | segment :: remaining => if stepsIntoIndex segment index then some remaining else none

/-- Two values that are equal except in the values of sensitive members, at any depth,
and at and below the positions some path selects. `paths` holds what is left of each path
that has stepped this far; a path with nothing left selects the position. -/
inductive AgreeOutside (toLowercase : Char → Str) :
    List (List Str) → Value ν → Value ν → Prop
  | same {paths value} : AgreeOutside toLowercase paths value value
  | selected {paths v w} : [] ∈ paths → AgreeOutside toLowercase paths v w
  | array {paths vs ws} : vs.length = ws.length →
      (∀ (i : Nat) v w, vs[i]? = some v → ws[i]? = some w →
        AgreeOutside toLowercase (intoIndex i paths) v w) →
      AgreeOutside toLowercase paths (.array vs) (.array ws)
  | object {paths vs ws} : vs.map Prod.fst = ws.map Prod.fst →
      (∀ (i : Nat) key v w, vs[i]? = some (key, v) → ws[i]? = some (key, w) →
        isSensitive toLowercase key = false →
        AgreeOutside toLowercase (intoKey key paths) v w) →
      AgreeOutside toLowercase paths (.object vs) (.object ws)

theorem redactValues_eq_map (toLowercase : Char → Str) (values : List (Value ν)) :
    redactValues toLowercase values = values.map (redactJson toLowercase) := by
  induction values with
  | nil => rfl
  | cons value rest ih => rw [redactValues, ih, List.map_cons]

theorem redactMembers_eq_map (toLowercase : Char → Str) (members : List (Str × Value ν)) :
    redactMembers toLowercase members = members.map (redactMember toLowercase) := by
  induction members with
  | nil => rfl
  | cons member rest ih => rw [redactMembers, ih, List.map_cons]

/-! ## A sequence of paths, child by child -/

theorem applyPaths_cons (path : List Str) (paths : List (List Str)) (value : Value ν) :
    applyPaths (path :: paths) value = applyPaths paths (redactPath path value) := rfl

/-- A redacted position stays redacted. -/
theorem applyPaths_redactedText (paths : List (List Str)) :
    applyPaths paths (.string redactedText : Value ν) = .string redactedText := by
  induction paths with
  | nil => rfl
  | cons path paths ih =>
      rw [applyPaths_cons]
      cases path with
      | nil => exact ih
      | cons segment remaining => exact ih

/-- A selected position ends redacted, whatever was applied to it before. -/
theorem applyPaths_selected {paths : List (List Str)} (h : [] ∈ paths) :
    ∀ value : Value ν, applyPaths paths value = .string redactedText := by
  induction paths with
  | nil => simp at h
  | cons path paths ih =>
      intro value
      rw [applyPaths_cons]
      rcases List.mem_cons.mp h with hnil | hrest
      · rw [← hnil]
        exact applyPaths_redactedText paths
      · exact ih hrest _

/-- Paths that do not select an array act on each element through its own tails. -/
theorem applyPaths_array {paths : List (List Str)} (h : [] ∉ paths) :
    ∀ values : List (Value ν), applyPaths paths (.array values)
      = .array (values.mapIdx fun i value => applyPaths (intoIndex i paths) value) := by
  induction paths with
  | nil =>
      intro values
      have hid : values.mapIdx (fun _ value => value) = values :=
        List.ext_getElem? fun i => by simp [List.getElem?_mapIdx]
      simp [applyPaths, intoIndex, hid]
  | cons path paths ih =>
      intro values
      obtain ⟨hpath, hrest⟩ := not_or.mp (fun hor => h (List.mem_cons.mpr hor))
      cases path with
      | nil => exact absurd rfl hpath
      | cons segment remaining =>
          rw [applyPaths_cons, redactPath, ih hrest, List.mapIdx_mapIdx]
          congr 1
          congr 1
          funext i value
          by_cases hstep : stepsIntoIndex segment i = true
          · simp [intoIndex, hstep, applyPaths_cons]
          · simp [intoIndex, hstep]

/-- Paths that do not select an object act on each member through its own tails. -/
theorem applyPaths_object {paths : List (List Str)} (h : [] ∉ paths) :
    ∀ members : List (Str × Value ν), applyPaths paths (.object members)
      = .object (members.map fun m => (m.1, applyPaths (intoKey m.1 paths) m.2)) := by
  induction paths with
  | nil =>
      intro members
      simp [applyPaths, intoKey]
  | cons path paths ih =>
      intro members
      obtain ⟨hpath, hrest⟩ := not_or.mp (fun hor => h (List.mem_cons.mpr hor))
      cases path with
      | nil => exact absurd rfl hpath
      | cons segment remaining =>
          rw [applyPaths_cons, redactPath, ih hrest, List.map_map]
          congr 1
          refine List.map_congr_left ?_
          intro m _
          by_cases hstep : stepsIntoKey segment m.1 = true
          · simp [intoKey, hstep, applyPaths_cons]
          · simp [intoKey, hstep]

/-- **Redaction hides what it redacts.** Values that agree outside the sensitive members
and the selected positions have one redacted copy. -/
theorem redacted_congr {toLowercase : Char → Str} {paths : List (List Str)}
    {v w : Value ν} (h : AgreeOutside toLowercase paths v w) :
    redacted toLowercase paths v = redacted toLowercase paths w := by
  induction h with
  | same => rfl
  | selected hnil => rw [redacted, redacted, applyPaths_selected hnil, applyPaths_selected hnil]
  | @array paths vs ws hlen _ ih =>
      by_cases hnil : [] ∈ paths
      · rw [redacted, redacted, applyPaths_selected hnil, applyPaths_selected hnil]
      · simp only [redacted, redactJson, redactValues_eq_map, applyPaths_array hnil]
        congr 1
        refine List.ext_getElem? fun i => ?_
        simp only [List.getElem?_mapIdx, List.getElem?_map]
        cases hv : vs[i]? with
        | none =>
            have hw : ws[i]? = none := by
              rw [List.getElem?_eq_none_iff] at hv ⊢
              omega
            rw [hw]
        | some v =>
            obtain ⟨w, hw⟩ : ∃ w, ws[i]? = some w := by
              obtain ⟨hi, _⟩ := List.getElem?_eq_some_iff.mp hv
              exact ⟨_, List.getElem?_eq_getElem (by omega)⟩
            rw [hw]
            exact congrArg some (ih i v w hv hw)
  | @object paths vs ws hkeys _ ih =>
      by_cases hnil : [] ∈ paths
      · rw [redacted, redacted, applyPaths_selected hnil, applyPaths_selected hnil]
      · simp only [redacted, redactJson, redactMembers_eq_map, applyPaths_object hnil]
        congr 1
        refine List.ext_getElem? fun i => ?_
        have hkey := congrArg (·[i]?) hkeys
        simp only [List.getElem?_map] at hkey ⊢
        cases hv : vs[i]? with
        | none =>
            rw [hv] at hkey
            rw [Option.map_eq_none_iff.mp hkey.symm]
        | some m =>
            obtain ⟨key, v⟩ := m
            rw [hv] at hkey
            obtain ⟨⟨key', w⟩, hw, hkw⟩ := Option.map_eq_some_iff.mp hkey.symm
            obtain rfl : key' = key := hkw
            rw [hw]
            cases hs : isSensitive toLowercase key' with
            | true => simp [redactMember, hs]
            | false =>
                have := ih i key' v w hv hw hs
                simp only [redacted] at this
                simp [redactMember, hs, this]

end SippinSoda
