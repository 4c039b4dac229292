import SippinSoda.Redact

/-!
# Redaction is one replacement

Keys are redacted first and paths one after another, each in a tree the others have rewritten. The
result is that of one simultaneous replacement: of the topmost positions that a sensitive key or a
path selects. So neither order nor repetition matters.
-/

namespace SippinSoda

variable {ν : Type}

/-! ## Positions -/

/-- A position in a value: at each level the index of an array's element or an object's member. -/
abbrev Position := List Nat

/-- The value at a position. -/
def Value.at? : Value ν → Position → Option (Value ν)
  | value, [] => some value
  | .array values, i :: rest => values[i]?.bind fun value => value.at? rest
  | .object members, i :: rest => members[i]?.bind fun member => member.2.at? rest
  | _, _ :: _ => none

/-- The position is the value of a member with a sensitive key. -/
inductive SensitiveAt (toLowercase : Char → Str) : Value ν → Position → Prop
  | member {members : List (Str × Value ν)} {i : Nat} {key : Str} {value : Value ν}
      (hmember : members[i]? = some (key, value)) (hkey : isSensitive toLowercase key = true) :
      SensitiveAt toLowercase (.object members) [i]
  | inMember {members : List (Str × Value ν)} {i : Nat} {key : Str} {value : Value ν}
      {rest : Position} (hmember : members[i]? = some (key, value))
      (hrest : SensitiveAt toLowercase value rest) :
      SensitiveAt toLowercase (.object members) (i :: rest)
  | inElement {values : List (Value ν)} {i : Nat} {value : Value ν} {rest : Position}
      (helement : values[i]? = some value) (hrest : SensitiveAt toLowercase value rest) :
      SensitiveAt toLowercase (.array values) (i :: rest)

/-- The path reaches the position. -/
inductive ReachedBy : List Str → Value ν → Position → Prop
  | here {value : Value ν} : ReachedBy [] value []
  | member {segment : Str} {remaining : List Str} {members : List (Str × Value ν)} {i : Nat}
      {key : Str} {value : Value ν} {rest : Position} (hmember : members[i]? = some (key, value))
      (hsegment : segment = ['*'] ∨ segment = key) (hrest : ReachedBy remaining value rest) :
      ReachedBy (segment :: remaining) (.object members) (i :: rest)
  | element {segment : Str} {remaining : List Str} {values : List (Value ν)} {i : Nat}
      {value : Value ν} {rest : Position} (helement : values[i]? = some value)
      (hsegment : segment = ['*'] ∨ Str.parseUsize segment = some i)
      (hrest : ReachedBy remaining value rest) :
      ReachedBy (segment :: remaining) (.array values) (i :: rest)

/-- The positions to redact. -/
def Selected (toLowercase : Char → Str) (paths : List (List Str)) (value : Value ν)
    (position : Position) : Prop :=
  SensitiveAt toLowercase value position ∨ ∃ path ∈ paths, ReachedBy path value position

/-- The second value is the first with the topmost of these positions redacted, and nothing else
changed. -/
inductive Replaced : (Position → Prop) → Value ν → Value ν → Prop
  | redacted {S : Position → Prop} {value : Value ν} (h : S []) :
      Replaced S value (.string redactedText)
  | null {S : Position → Prop} (h : ¬ S []) : Replaced S .null .null
  | bool {S : Position → Prop} (h : ¬ S []) (b : Bool) : Replaced S (.bool b) (.bool b)
  | number {S : Position → Prop} (h : ¬ S []) (n : ν) : Replaced S (.number n) (.number n)
  | string {S : Position → Prop} (h : ¬ S []) (s : Str) : Replaced S (.string s) (.string s)
  | array {S : Position → Prop} (h : ¬ S []) {values results : List (Value ν)}
      (hlength : results.length = values.length)
      (heach : ∀ (i : Nat) value result, values[i]? = some value → results[i]? = some result →
        Replaced (fun rest => S (i :: rest)) value result) :
      Replaced S (.array values) (.array results)
  | object {S : Position → Prop} (h : ¬ S []) {members results : List (Str × Value ν)}
      (hkeys : results.map Prod.fst = members.map Prod.fst)
      (heach : ∀ (i : Nat) key value result, members[i]? = some (key, value) →
        results[i]? = some (key, result) → Replaced (fun rest => S (i :: rest)) value result) :
      Replaced S (.object members) (.object results)

/-- Induction over a value, its elements and its members. -/
@[elab_as_elim]
theorem Value.induct {P : Value ν → Prop} (null : P .null) (bool : ∀ b, P (.bool b))
    (number : ∀ n, P (.number n)) (string : ∀ s, P (.string s))
    (array : ∀ values, (∀ value ∈ values, P value) → P (.array values))
    (object : ∀ members : List (Str × Value ν), (∀ member ∈ members, P member.2) →
      P (.object members)) : ∀ value, P value
  | .null => null
  | .bool b => bool b
  | .number n => number n
  | .string s => string s
  | .array values => array values fun value _ =>
      Value.induct null bool number string array object value
  | .object members => object members fun member hmember =>
      have : sizeOf member.2 < 1 + sizeOf members := by
        have hlt := List.sizeOf_lt_of_mem hmember
        obtain ⟨key, value⟩ := member
        simp only [Prod.mk.sizeOf_spec] at hlt
        show sizeOf value < _
        omega
      Value.induct null bool number string array object member.2

/-- A replacement is determined by its positions. -/
theorem Replaced.unique {S : Position → Prop} {value a b : Value ν} (ha : Replaced S value a)
    (hb : Replaced S value b) : a = b := by
  induction ha generalizing b with
  | redacted h =>
      cases hb with
      | redacted => rfl
      | null h' | bool h' | number h' | string h' => exact absurd h h'
      | array h' => exact absurd h h'
      | object h' => exact absurd h h'
  | null h =>
      cases hb with
      | redacted h' => exact absurd h' h
      | null => rfl
  | bool h =>
      cases hb with
      | redacted h' => exact absurd h' h
      | bool => rfl
  | number h =>
      cases hb with
      | redacted h' => exact absurd h' h
      | number => rfl
  | string h =>
      cases hb with
      | redacted h' => exact absurd h' h
      | string => rfl
  | @array S h values results hlength _ ih =>
      cases hb with
      | redacted h' => exact absurd h' h
      | @array _ _ _ results' hlength' heach' =>
          congr 1
          apply List.ext_getElem (hlength.trans hlength'.symm)
          intro i hi hi'
          have hvalue : values[i]? = some values[i] := List.getElem?_eq_getElem (by omega)
          exact ih i _ _ hvalue (List.getElem?_eq_getElem hi)
            (heach' i _ _ hvalue (List.getElem?_eq_getElem hi'))
  | @object S h members results hkeys _ ih =>
      cases hb with
      | redacted h' => exact absurd h' h
      | @object _ _ _ results' hkeys' heach' =>
          congr 1
          have hlength := congrArg List.length hkeys
          have hlength' := congrArg List.length hkeys'
          simp only [List.length_map] at hlength hlength'
          apply List.ext_getElem (hlength.trans hlength'.symm)
          intro i hi hi'
          have hmember : members[i]? = some (members[i].1, members[i].2) :=
            List.getElem?_eq_getElem (by omega)
          have hkey : results[i].1 = members[i].1 := by
            have hget := congrArg (fun keys => keys[i]?) hkeys
            simpa [hi, hlength ▸ hi] using hget
          have hkey' : results'[i].1 = members[i].1 := by
            have hget := congrArg (fun keys => keys[i]?) hkeys'
            simpa [hi', hlength' ▸ hi'] using hget
          have hresult : results[i]? = some (members[i].1, results[i].2) := by
            rw [← hkey]
            exact List.getElem?_eq_getElem hi
          have hresult' : results'[i]? = some (members[i].1, results'[i].2) := by
            rw [← hkey']
            exact List.getElem?_eq_getElem hi'
          have hsame := ih i _ _ _ hmember hresult (heach' i _ _ _ hmember hresult')
          exact Prod.ext (hkey.trans hkey'.symm) hsame

/-! ## Redaction, child by child -/

section

variable {toLowercase : Char → Str}

theorem redacted_selected {paths : List (List Str)} (h : [] ∈ paths) (value : Value ν) :
    redacted toLowercase paths value = .string redactedText := applyPaths_selected h _

theorem redacted_array {paths : List (List Str)} (h : [] ∉ paths) (values : List (Value ν)) :
    redacted toLowercase paths (.array values) =
      .array (values.mapIdx fun i value => redacted toLowercase (intoIndex i paths) value) := by
  rw [redacted, redactJson, redactValues_eq_map, applyPaths_array h]
  congr 1
  apply List.ext_getElem?
  intro i
  rw [List.getElem?_mapIdx, List.getElem?_map, List.getElem?_mapIdx, Option.map_map]
  rfl

/-- What becomes of a member's value. -/
def redactedMember (toLowercase : Char → Str) (paths : List (List Str)) (key : Str)
    (value : Value ν) : Value ν :=
  if isSensitive toLowercase key = true then .string redactedText
  else redacted toLowercase (intoKey key paths) value

theorem redacted_object {paths : List (List Str)} (h : [] ∉ paths)
    (members : List (Str × Value ν)) :
    redacted toLowercase paths (.object members) =
      .object (members.map fun m => (m.1, redactedMember toLowercase paths m.1 m.2)) := by
  rw [redacted, redactJson, redactMembers_eq_map, applyPaths_object h, List.map_map]
  congr 1
  apply List.map_congr_left
  rintro ⟨key, value⟩ -
  show (key, applyPaths _ (redactMember toLowercase (key, value)).2) = _
  unfold redactMember redactedMember
  by_cases hkey : isSensitive toLowercase key = true
  · simp only [if_pos hkey, applyPaths_redactedText]
  · simp only [if_neg hkey]
    rfl

/-- Paths that do not select a scalar leave it. -/
theorem applyPaths_scalar {value : Value ν} (hscalar : ∀ segment remaining,
    redactPath (segment :: remaining) value = value) {paths : List (List Str)} (h : [] ∉ paths) :
    applyPaths paths value = value := by
  induction paths with
  | nil => rfl
  | cons path paths ih =>
      rw [List.mem_cons, not_or] at h
      rw [applyPaths_cons]
      cases path with
      | nil => exact absurd rfl h.1
      | cons segment remaining =>
          rw [hscalar]
          exact ih h.2

/-! ## The positions to redact, child by child -/

theorem reachedBy_nil {path : List Str} {value : Value ν} :
    ReachedBy path value [] ↔ path = [] := by
  constructor
  · intro h
    cases h
    rfl
  · rintro rfl
    exact .here

theorem selected_nil {paths : List (List Str)} {value : Value ν} :
    Selected toLowercase paths value [] ↔ [] ∈ paths := by
  unfold Selected
  simp only [reachedBy_nil]
  constructor
  · rintro (h | ⟨path, hpath, rfl⟩)
    · cases h
    · exact hpath
  · exact fun h => .inr ⟨[], h, rfl⟩

theorem mem_intoIndex {i : Nat} {paths : List (List Str)} {remaining : List Str} :
    remaining ∈ intoIndex i paths ↔ ∃ segment, segment :: remaining ∈ paths ∧
      (segment = ['*'] ∨ Str.parseUsize segment = some i) := by
  unfold intoIndex
  rw [List.mem_filterMap]
  constructor
  · rintro ⟨path, hpath, h⟩
    cases path with
    | nil => exact absurd h (by simp)
    | cons segment rest =>
        dsimp only at h
        split_ifs at h with hsteps
        obtain rfl := Option.some.inj h
        exact ⟨segment, hpath, by simpa [stepsIntoIndex] using hsteps⟩
  · rintro ⟨segment, hpath, hsteps⟩
    exact ⟨_, hpath, if_pos (by simpa [stepsIntoIndex] using hsteps)⟩

theorem mem_intoKey {key : Str} {paths : List (List Str)} {remaining : List Str} :
    remaining ∈ intoKey key paths ↔ ∃ segment, segment :: remaining ∈ paths ∧
      (segment = ['*'] ∨ segment = key) := by
  unfold intoKey
  rw [List.mem_filterMap]
  constructor
  · rintro ⟨path, hpath, h⟩
    cases path with
    | nil => exact absurd h (by simp)
    | cons segment rest =>
        dsimp only at h
        split_ifs at h with hsteps
        obtain rfl := Option.some.inj h
        exact ⟨segment, hpath, by simpa [stepsIntoKey] using hsteps⟩
  · rintro ⟨segment, hpath, hsteps⟩
    exact ⟨_, hpath, if_pos (by simpa [stepsIntoKey] using hsteps)⟩

theorem selected_element {paths : List (List Str)} {values : List (Value ν)} {i : Nat}
    {value : Value ν} (helement : values[i]? = some value) (rest : Position) :
    Selected toLowercase paths (.array values) (i :: rest) ↔
      Selected toLowercase (intoIndex i paths) value rest := by
  constructor
  · rintro (h | ⟨path, hpath, h⟩)
    · cases h with
      | inElement helement' hrest =>
          obtain rfl := Option.some.inj (helement.symm.trans helement')
          exact .inl hrest
    · cases h with
      | element helement' hsegment hrest =>
          obtain rfl := Option.some.inj (helement.symm.trans helement')
          exact .inr ⟨_, mem_intoIndex.mpr ⟨_, hpath, hsegment⟩, hrest⟩
  · rintro (h | ⟨path, hpath, h⟩)
    · exact .inl (.inElement helement h)
    · obtain ⟨segment, hpath, hsegment⟩ := mem_intoIndex.mp hpath
      exact .inr ⟨_, hpath, .element helement hsegment h⟩

theorem selected_member {paths : List (List Str)} {members : List (Str × Value ν)} {i : Nat}
    {key : Str} {value : Value ν} (hmember : members[i]? = some (key, value)) (rest : Position) :
    Selected toLowercase paths (.object members) (i :: rest) ↔
      (isSensitive toLowercase key = true ∧ rest = []) ∨
        Selected toLowercase (intoKey key paths) value rest := by
  constructor
  · rintro (h | ⟨path, hpath, h⟩)
    · cases h with
      | member hmember' hkey =>
          obtain ⟨rfl, rfl⟩ := Prod.mk.inj (Option.some.inj (hmember.symm.trans hmember'))
          exact .inl ⟨hkey, rfl⟩
      | inMember hmember' hrest =>
          obtain ⟨rfl, rfl⟩ := Prod.mk.inj (Option.some.inj (hmember.symm.trans hmember'))
          exact .inr (.inl hrest)
    · cases h with
      | member hmember' hsegment hrest =>
          obtain ⟨rfl, rfl⟩ := Prod.mk.inj (Option.some.inj (hmember.symm.trans hmember'))
          exact .inr (.inr ⟨_, mem_intoKey.mpr ⟨_, hpath, hsegment⟩, hrest⟩)
  · rintro (⟨hkey, rfl⟩ | h | ⟨path, hpath, h⟩)
    · exact .inl (.member hmember hkey)
    · exact .inl (.inMember hmember h)
    · obtain ⟨segment, hpath, hsegment⟩ := mem_intoKey.mp hpath
      exact .inr ⟨_, hpath, .member hmember hsegment h⟩

/-- A scalar is kept unless a path ends at it. -/
theorem redacted_scalar {value : Value ν} (hjson : redactJson toLowercase value = value)
    (hscalar : ∀ segment remaining, redactPath (segment :: remaining) value = value)
    {paths : List (List Str)}
    (hkeep : ¬ Selected toLowercase paths value [] →
      Replaced (Selected toLowercase paths value) value value) :
    Replaced (Selected toLowercase paths value) value (redacted toLowercase paths value) := by
  by_cases hnil : [] ∈ paths
  · rw [redacted_selected hnil]
    exact .redacted (selected_nil.mpr hnil)
  · rw [redacted, hjson, applyPaths_scalar hscalar hnil]
    exact hkeep fun h => hnil (selected_nil.mp h)

/-- **Redaction is the replacement of the selected positions.** -/
theorem redacted_replaced (paths : List (List Str)) (value : Value ν) :
    Replaced (Selected toLowercase paths value) value (redacted toLowercase paths value) := by
  induction value using Value.induct generalizing paths with
  | null => exact redacted_scalar rfl (fun _ _ => rfl) .null
  | bool b => exact redacted_scalar rfl (fun _ _ => rfl) (.bool · b)
  | number n => exact redacted_scalar rfl (fun _ _ => rfl) (.number · n)
  | string s => exact redacted_scalar rfl (fun _ _ => rfl) (.string · s)
  | array values ih =>
      by_cases hnil : [] ∈ paths
      · rw [redacted_selected hnil]
        exact .redacted (selected_nil.mpr hnil)
      · rw [redacted_array hnil]
        refine .array (fun h => hnil (selected_nil.mp h)) List.length_mapIdx ?_
        intro i value result hvalue hresult
        rw [List.getElem?_mapIdx, hvalue] at hresult
        obtain rfl := Option.some.inj hresult
        have hselected : (fun rest => Selected toLowercase paths (.array values) (i :: rest)) =
            Selected toLowercase (intoIndex i paths) value :=
          funext fun rest => propext (selected_element hvalue rest)
        rw [hselected]
        exact ih value (List.mem_of_getElem? hvalue) (intoIndex i paths)
  | object members ih =>
      by_cases hnil : [] ∈ paths
      · rw [redacted_selected hnil]
        exact .redacted (selected_nil.mpr hnil)
      · rw [redacted_object hnil]
        refine .object (fun h => hnil (selected_nil.mp h)) (by simp) ?_
        intro i key value result hmember hresult
        rw [List.getElem?_map, hmember] at hresult
        obtain ⟨-, rfl⟩ := Prod.mk.inj (Option.some.inj hresult)
        unfold redactedMember
        by_cases hkey : isSensitive toLowercase key = true
        · rw [if_pos hkey]
          exact .redacted ((selected_member hmember []).mpr (.inl ⟨hkey, rfl⟩))
        · rw [if_neg hkey]
          have hselected : (fun rest => Selected toLowercase paths (.object members) (i :: rest)) =
              Selected toLowercase (intoKey key paths) value :=
            funext fun rest => propext ((selected_member hmember rest).trans
              ⟨fun h => h.elim (fun h => absurd h.1 hkey) id, .inr⟩)
          rw [hselected]
          exact ih _ (List.mem_of_getElem? hmember) (intoKey key paths)

/-! ## Order, repetition, a second redaction -/

/-- Only which paths there are counts. -/
theorem redacted_congr_paths {paths paths' : List (List Str)}
    (h : ∀ path, path ∈ paths' ↔ path ∈ paths) (value : Value ν) :
    redacted toLowercase paths' value = redacted toLowercase paths value := by
  have hselected : Selected toLowercase paths' value = Selected toLowercase paths value := by
    funext position
    unfold Selected
    simp only [h]
  have hreplaced : Replaced (Selected toLowercase paths' value) value _ :=
    redacted_replaced paths' value
  rw [hselected] at hreplaced
  exact hreplaced.unique (redacted_replaced paths value)

theorem redacted_redacted_scalar {value : Value ν} (hjson : redactJson toLowercase value = value)
    (hscalar : ∀ segment remaining, redactPath (segment :: remaining) value = value)
    (paths : List (List Str)) :
    redacted toLowercase paths (redacted toLowercase paths value) =
      redacted toLowercase paths value := by
  by_cases hnil : [] ∈ paths
  · rw [redacted_selected hnil, redacted_selected hnil]
  · have hkept : redacted toLowercase paths value = value := by
      rw [redacted, hjson, applyPaths_scalar hscalar hnil]
    rw [hkept, hkept]

/-- A second redaction finds nothing to do. -/
theorem redacted_redacted (paths : List (List Str)) (value : Value ν) :
    redacted toLowercase paths (redacted toLowercase paths value) =
      redacted toLowercase paths value := by
  induction value using Value.induct generalizing paths with
  | null | bool b | number n | string s =>
      exact redacted_redacted_scalar rfl (fun _ _ => rfl) paths
  | array values ih =>
      by_cases hnil : [] ∈ paths
      · rw [redacted_selected hnil, redacted_selected hnil]
      · rw [redacted_array hnil, redacted_array hnil, List.mapIdx_mapIdx]
        congr 1
        apply List.ext_getElem?
        intro i
        rw [List.getElem?_mapIdx, List.getElem?_mapIdx]
        cases hvalue : values[i]? with
        | none => rfl
        | some value =>
            show some _ = some _
            rw [Function.comp_apply, ih value (List.mem_of_getElem? hvalue)]
  | object members ih =>
      by_cases hnil : [] ∈ paths
      · rw [redacted_selected hnil, redacted_selected hnil]
      · rw [redacted_object hnil, redacted_object hnil, List.map_map]
        congr 1
        apply List.map_congr_left
        rintro ⟨key, value⟩ hmember
        show (key, redactedMember _ paths key (redactedMember _ paths key value)) =
          (key, redactedMember _ paths key value)
        unfold redactedMember
        by_cases hkey : isSensitive toLowercase key = true
        · rw [if_pos hkey, if_pos hkey]
        · rw [if_neg hkey, if_neg hkey, ih _ hmember]

/-! ## What is selected is covered -/

/-- Whatever is selected is redacted with it or with something around it. -/
theorem Replaced.covers {S : Position → Prop} {value result : Value ν} (h : Replaced S value result)
    {position : Position} {there : Value ν} (hat : value.at? position = some there)
    (hS : S position) :
    ∃ above, above <+: position ∧ result.at? above = some (.string redactedText) := by
  induction h generalizing position with
  | redacted => exact ⟨[], List.nil_prefix, rfl⟩
  | null h | bool h | number h | string h =>
      cases position with
      | nil => exact absurd hS h
      | cons i rest => cases hat
  | @array S h values results hlength _ ih =>
      cases position with
      | nil => exact absurd hS h
      | cons i rest =>
          obtain ⟨value, hvalue, hat⟩ := Option.bind_eq_some_iff.mp hat
          have hi : i < results.length := hlength ▸ (List.getElem?_eq_some_iff.mp hvalue).1
          have hresult : results[i]? = some results[i] := List.getElem?_eq_getElem hi
          obtain ⟨above, hfront, habove⟩ := ih i value _ hvalue hresult hat hS
          refine ⟨i :: above, List.cons_prefix_cons.mpr ⟨rfl, hfront⟩, ?_⟩
          show results[i]?.bind _ = _
          rw [hresult]
          exact habove
  | @object S h members results hkeys _ ih =>
      cases position with
      | nil => exact absurd hS h
      | cons i rest =>
          obtain ⟨⟨key, value⟩, hmember, hat⟩ := Option.bind_eq_some_iff.mp hat
          have hkey := congrArg (fun keys => keys[i]?) hkeys
          simp only [List.getElem?_map, hmember, Option.map_some] at hkey
          obtain ⟨⟨key', result⟩, hresult, hsame⟩ := Option.map_eq_some_iff.mp hkey
          obtain rfl : key' = key := hsame
          obtain ⟨above, hfront, habove⟩ := ih i _ _ _ hmember hresult hat hS
          refine ⟨i :: above, List.cons_prefix_cons.mpr ⟨rfl, hfront⟩, ?_⟩
          show results[i]?.bind _ = _
          rw [hresult]
          exact habove

/-- There is a value where a sensitive key is, and where a path leads. -/
theorem Selected.there {paths : List (List Str)} {value : Value ν} {position : Position}
    (h : Selected toLowercase paths value position) : ∃ there, value.at? position = some there := by
  rcases h with h | ⟨path, -, h⟩
  · induction h with
    | member hmember => exact ⟨_, by show Option.bind _ _ = _; rw [hmember]; rfl⟩
    | inMember hmember _ ih =>
        obtain ⟨there, hthere⟩ := ih
        exact ⟨there, by show Option.bind _ _ = _; rw [hmember]; exact hthere⟩
    | inElement helement _ ih =>
        obtain ⟨there, hthere⟩ := ih
        exact ⟨there, by show Option.bind _ _ = _; rw [helement]; exact hthere⟩
  · induction h with
    | here => exact ⟨_, rfl⟩
    | member hmember _ _ ih =>
        obtain ⟨there, hthere⟩ := ih
        exact ⟨there, by show Option.bind _ _ = _; rw [hmember]; exact hthere⟩
    | element helement _ _ ih =>
        obtain ⟨there, hthere⟩ := ih
        exact ⟨there, by show Option.bind _ _ = _; rw [helement]; exact hthere⟩

/-- Nothing is below a text. -/
theorem Value.at?_above {value : Value ν} {above position : Position} {s : Str}
    {there : Value ν} (hfront : above <+: position) (habove : value.at? above = some (.string s))
    (hat : value.at? position = some there) : there = .string s := by
  induction above generalizing value position with
  | nil =>
      obtain rfl : value = .string s := Option.some.inj habove
      cases position with
      | nil => exact (Option.some.inj hat).symm
      | cons i rest => cases hat
  | cons i above ih =>
      obtain ⟨rest, rfl⟩ := hfront
      cases value with
      | null | bool b | number n | string t => cases habove
      | array values =>
          obtain ⟨value, hvalue, habove⟩ := Option.bind_eq_some_iff.mp habove
          obtain ⟨value', hvalue', hat⟩ := Option.bind_eq_some_iff.mp hat
          obtain rfl := Option.some.inj (hvalue.symm.trans hvalue')
          exact ih (List.prefix_append _ _) habove hat
      | object members =>
          obtain ⟨member, hmember, habove⟩ := Option.bind_eq_some_iff.mp habove
          obtain ⟨member', hmember', hat⟩ := Option.bind_eq_some_iff.mp hat
          obtain rfl := Option.some.inj (hmember.symm.trans hmember')
          exact ih (List.prefix_append _ _) habove hat

/-- A member with a sensitive key is redacted at any depth. -/
theorem sensitive_is_redacted {paths : List (List Str)} {value : Value ν} {position : Position}
    (h : SensitiveAt toLowercase (redacted toLowercase paths value) position) :
    (redacted toLowercase paths value).at? position = some (.string redactedText) := by
  have hagain : Replaced (Selected toLowercase paths (redacted toLowercase paths value)) _ _ :=
    redacted_replaced paths (redacted toLowercase paths value)
  rw [redacted_redacted] at hagain
  have hselected : Selected toLowercase paths (redacted toLowercase paths value) position := .inl h
  obtain ⟨there, hthere⟩ := hselected.there
  obtain ⟨above, hfront, habove⟩ := hagain.covers hthere hselected
  rw [hthere, Value.at?_above hfront habove hthere]

/-- **Redaction is exact.** It replaces the topmost selected positions and changes nothing else.
So neither the order of the paths nor their repetition counts, a second redaction changes nothing,
no member with a sensitive key keeps another value, and with more paths all that was selected is
still covered. -/
theorem redaction_is_exact (toLowercase : Char → Str) (paths : List (List Str)) (value : Value ν) :
    Replaced (Selected toLowercase paths value) value (redacted toLowercase paths value) ∧
      (∀ result, Replaced (Selected toLowercase paths value) value result →
        result = redacted toLowercase paths value) ∧
      (∀ paths', (∀ path, path ∈ paths' ↔ path ∈ paths) →
        redacted toLowercase paths' value = redacted toLowercase paths value) ∧
      redacted toLowercase paths (redacted toLowercase paths value) =
        redacted toLowercase paths value ∧
      (∀ position, SensitiveAt toLowercase (redacted toLowercase paths value) position →
        (redacted toLowercase paths value).at? position = some (.string redactedText)) ∧
      (∀ paths', paths ⊆ paths' → ∀ position, Selected toLowercase paths value position →
        ∃ above, above <+: position ∧
          (redacted toLowercase paths' value).at? above = some (.string redactedText)) := by
  refine ⟨redacted_replaced paths value, fun result h => h.unique (redacted_replaced paths value),
    fun paths' h => redacted_congr_paths h value, redacted_redacted paths value,
    fun position h => sensitive_is_redacted h, ?_⟩
  intro paths' hsubset position hselected
  have hmore : Selected toLowercase paths' value position := by
    rcases hselected with h | ⟨path, hpath, h⟩
    · exact .inl h
    · exact .inr ⟨path, hsubset hpath, h⟩
  obtain ⟨there, hthere⟩ := hmore.there
  exact (redacted_replaced paths' value).covers hthere hmore

end

end SippinSoda
