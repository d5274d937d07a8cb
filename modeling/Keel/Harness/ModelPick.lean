import Keel.Foundation.Text
import Mathlib.Data.List.Dedup

/-! # Picking an advertised model id

The matchers that turn a requested model id into one of the values an agent advertises: the
siblings of an id that differ in their effort, the long-context variants of an id, and the
first value of its family.
-/

namespace Keel.ModelPick

open List Option Text

/-! ## Ids -/

def lower (text : String) : String := String.ofList (text.toList.map toAsciiLowercase)

/-- Option and model ids are matched across naming styles. -/
def normId (id : String) : List Char :=
  (id.toList.filter isAsciiAlphanumeric).map toAsciiLowercase

def stripSuffix (suffix id : String) : Option String :=
  if suffix.toList <:+ id.toList then
    some (String.ofList (id.toList.take (id.toList.length - suffix.toList.length)))
  else none

/-- Whether an id carries the hint of the long context, in either spelling. -/
def contextHint1m (id : String) : Bool :=
  decide ("[1m]".toList <:+: id.toList) || decide ("-1m".toList <:+ id.toList)

def stripContextHint (id : String) : Option String :=
  (stripSuffix "[1m]" id).or (stripSuffix "-1m" id)

/-- The two spellings of the long-context variant of an id. -/
def composed (requested : String) : List String := [requested ++ "[1m]", requested ++ "-1m"]

/-! ## The family of an id -/

def baseId (modelId : String) : String := String.ofList (modelId.toList.takeWhile (· ≠ '['))

/-- The suffix of an exploded variant is its parameters. -/
def stripVariantSuffix (id : String) : String := baseId id

def effortSuffixes : List (String × String) :=
  [("-low", "low"), ("-medium", "medium"), ("-high", "high"), ("-xhigh", "xhigh"),
    ("-max", "max")]

def familyKey (modelId : String) : String :=
  (effortSuffixes.findSome? fun (suffix, _) => stripSuffix suffix (baseId modelId)).getD
    (baseId modelId)

/-- The position of the last occurrence of a character. -/
def rfind (c : Char) (text : List Char) : Option Nat :=
  (text.reverse.idxOf? c).map fun back => text.length - 1 - back

/-- The parameters in the brackets of an id, in order. -/
def parseParams (modelId : String) : List (String × String) :=
  match modelId.toList.idxOf? '[', rfind ']' modelId.toList with
  | some start, some stop =>
    if stop ≤ start + 1 then []
    else
      (((modelId.toList.drop (start + 1)).take (stop - (start + 1))).splitOn ',').filterMap
        fun part =>
          match splitOnce '=' (trim part) with
          | some (key, value) =>
            if trim key = [] then none
            else some (String.ofList (trim key), String.ofList (trim value))
          | none => none
  | _, _ => []

/-- A parameter that is given twice has its last value. -/
def param? (params : List (String × String)) (key : String) : Option String :=
  params.reverse.lookup key

/-- The effort an id declares in its parameters or its suffix, or its badge does. -/
def effortOf (modelId : String) (badge : Option String) : Option String :=
  let declared := ["effort", "reasoning", "reasoning_effort"].findSome? fun key =>
    (param? (parseParams modelId) key).map lower
  let suffixed := (effortSuffixes.find? fun (suffix, _) =>
    decide (suffix.toList <:+ (baseId modelId).toList)).map Prod.snd
  (declared.or suffixed).or (badge.map fun badge => lower (String.ofList (trim badge.toList)))

def siblings (family : String) (available : List String) : List String :=
  available.filter fun id => decide (familyKey id = family)

/-- The efforts the ids declare, each once. -/
def efforts (ids : List String) : List String := (ids.filterMap fun id => effortOf id none).dedup

/-- The first of the ids with an effort. -/
def withEffort? (ids : List String) (effort : String) : Option String :=
  ids.find? fun id => decide (effortOf id none = some (lower effort))

/-- The first of the ids with a high effort, or the first of them. -/
def highest? (ids : List String) : Option String :=
  (ids.find? fun id => (effortOf id none).any fun effort =>
    effort = "high" ∨ effort = "xhigh" ∨ effort = "max").or ids.head?

/-- The advertised id of a family whose ids differ in their effort. -/
def pickModelId (requested : String) (preferred available : List String) : Option String :=
  let found := siblings (familyKey requested) available
  if found.isEmpty then none
  else if (efforts found).length ≤ 1 then none
  else
    ((preferred.findSome? (withEffort? found)).or
      (if requested ∈ available then some requested else none)).or (highest? found)

/-! ## The generic matcher -/

def families : List String := ["fable", "opus", "sonnet", "haiku", "gpt"]

/-- The first advertised value of the id's family, with the wanted context if there is one. -/
def familyValue? (requested : String) (available : List String) (context1m : Bool) :
    Option String :=
  (families.find? fun family => decide (family.toList <:+: normId requested)).bind fun family =>
    let candidates := available.filter fun value => decide (family.toList <:+: normId value)
    (candidates.find? fun value => contextHint1m value == context1m).or candidates.head?

def pickModelValue (requested : String) (available : List String) (context1m : Bool) :
    Option String :=
  let variant := if context1m then (composed requested).find? fun id => decide (id ∈ available)
    else none
  (variant.or (if requested ∈ available then some requested else none)).or
    (familyValue? requested available context1m)

/-- The value a model select is set to for a requested id: a sibling with the right effort,
and else what the generic matcher picks, without the variant suffix first. -/
def pickModel (requested : String) (preferred available : List String) (context1m : Bool) :
    Option String :=
  ((pickModelId (stripVariantSuffix requested) preferred available).or
    (pickModelValue (stripVariantSuffix requested) available context1m)).or
      (pickModelValue requested available context1m)

/-! ## What is picked is advertised -/

variable {id requested : String} {preferred available accepted : List String} {context1m : Bool}

theorem mem_of_withEffort? {ids : List String} {effort : String}
    (h : withEffort? ids effort = some id) : id ∈ ids :=
  mem_of_find?_eq_some h

theorem mem_of_highest? {ids : List String} (h : highest? ids = some id) : id ∈ ids := by
  rw [highest?, or_eq_some_iff] at h
  rcases h with h | ⟨-, h⟩
  · exact mem_of_find?_eq_some h
  · exact mem_of_mem_head? h

theorem mem_of_pickModelId
    (h : pickModelId requested preferred available = some id) : id ∈ available := by
  have hsibling : ∀ sibling ∈ siblings (familyKey requested) available, sibling ∈ available :=
    fun _ hmem => mem_of_mem_filter hmem
  rw [pickModelId, ite_none_left_eq_some, ite_none_left_eq_some,
    or_eq_some_iff, or_eq_some_iff] at h
  rcases h.2.2 with (h | ⟨-, h⟩) | ⟨-, h⟩
  · obtain ⟨effort, -, hfound⟩ := exists_of_findSome?_eq_some h
    exact hsibling id (mem_of_withEffort? hfound)
  · rw [ite_none_right_eq_some] at h
    exact Option.some.inj h.2 ▸ h.1
  · exact hsibling id (mem_of_highest? h)

theorem mem_of_familyValue? (h : familyValue? requested available context1m = some id) :
    id ∈ available := by
  rw [familyValue?, bind_eq_some_iff] at h
  obtain ⟨family, -, h⟩ := h
  rw [or_eq_some_iff] at h
  rcases h with h | ⟨-, h⟩
  · exact mem_of_mem_filter (mem_of_find?_eq_some h)
  · exact mem_of_mem_filter (mem_of_mem_head? h)

theorem mem_of_pickModelValue (h : pickModelValue requested available context1m = some id) :
    id ∈ available := by
  rw [pickModelValue, or_eq_some_iff, or_eq_some_iff] at h
  rcases h with (h | ⟨-, h⟩) | ⟨-, h⟩
  · rw [ite_none_right_eq_some] at h
    simpa using find?_some h.2
  · rw [ite_none_right_eq_some] at h
    exact Option.some.inj h.2 ▸ h.1
  · exact mem_of_familyValue? h

theorem mem_of_pickModel
    (h : pickModel requested preferred available context1m = some id) : id ∈ available := by
  rw [pickModel, or_eq_some_iff, or_eq_some_iff] at h
  rcases h with (h | ⟨-, h⟩) | ⟨-, h⟩
  · exact mem_of_pickModelId h
  · exact mem_of_pickModelValue h
  · exact mem_of_pickModelValue h

/-! ## Which ids are picked as they are requested -/

/-- The pick is an accepted one: of the family's ids with several efforts the one with a
preferred effort is, or else the id is asked for without a suffix; without a choice of
efforts the suffix is dropped only where that leads nowhere or to an accepted value. -/
def Clear (accepted : List String) (requested : String) (preferred available : List String)
    (context1m : Bool) : Prop :=
  let family := siblings (familyKey requested) available
  let base := baseId requested
  if 2 ≤ (efforts family).length then
    match preferred.findSome? (withEffort? family) with
    | some id => id ∈ accepted
    | none =>
      if base ∈ available then base = requested else ∀ id ∈ highest? family, id ∈ accepted
  else
    base = requested ∨
      base ∉ available ∧ (context1m = true → ∀ id ∈ composed base, id ∉ available) ∧
        ∀ id ∈ familyValue? base available context1m, id ∈ accepted

/-- A request for an advertised id, or for one whose long-context variant is advertised and
asked for, and the values it may end with. -/
structure Request (accepted : List String) (requested : String) (available : List String)
    (context1m : Bool) : Prop where
  advertised : requested ∈ available ∨
    context1m = true ∧ ∃ id ∈ composed requested, id ∈ available
  only : ∀ id ∈ accepted, id = requested ∨ id ∈ composed requested
  self : requested ∈ accepted
  variants : context1m = true → ∀ id ∈ composed requested, id ∈ accepted
  bare : context1m = true → ∀ id ∈ composed (baseId requested), id ∈ available → id ≠ requested

theorem toList_baseId (id : String) : (baseId id).toList = id.toList.takeWhile (· ≠ '[') :=
  String.toList_ofList

theorem exists_rest (hbase : baseId id ≠ id) :
    ∃ rest, id.toList = (baseId id).toList ++ '[' :: rest := by
  have hsplit := takeWhile_append_dropWhile (p := (· ≠ '[')) (l := id.toList)
  cases hrest : id.toList.dropWhile (· ≠ '[') with
  | nil =>
    rw [hrest, append_nil, ← toList_baseId] at hsplit
    exact absurd (String.ext hsplit) hbase
  | cons c rest =>
    have hc : c = '[' := by
      have hhead := head?_dropWhile_not (· ≠ '[') id.toList
      rw [hrest] at hhead
      simpa using hhead
    rw [hrest, hc, ← toList_baseId] at hsplit
    exact ⟨rest, hsplit.symm⟩

theorem baseId_baseId (id : String) : baseId (baseId id) = baseId id := by
  rw [baseId, toList_baseId, takeWhile_takeWhile]
  simp [baseId]

theorem familyKey_baseId (id : String) : familyKey (baseId id) = familyKey id := by
  rw [familyKey, baseId_baseId, familyKey]

theorem baseId_notMem_composed (id : String) : baseId id ∉ composed id := by
  have hlength : (baseId id).toList.length ≤ id.toList.length := by
    rw [toList_baseId]
    exact (List.takeWhile_prefix _).length_le
  intro hmem
  rw [composed, mem_cons, mem_singleton] at hmem
  rcases hmem with heq | heq
  · rw [heq, String.toList_append, length_append] at hlength
    exact absurd hlength (by simp)
  · rw [heq, String.toList_append, length_append] at hlength
    exact absurd hlength (by simp)

/-- The variants of a base that is not the id itself are no variants of the id. -/
theorem notMem_composed_of_base {variant : String} (hbase : baseId id ≠ id)
    (hvariant : variant ∈ composed (baseId id)) : variant ∉ composed id := by
  obtain ⟨rest, hrest⟩ := exists_rest hbase
  have hbehind : ∀ {first second : String}, baseId id ++ first = id ++ second →
      first.toList = '[' :: (rest ++ second.toList) := by
    intro first second heq
    have hlists := congrArg String.toList heq
    rw [String.toList_append, String.toList_append, hrest, append_assoc] at hlists
    exact append_cancel_left hlists
  intro hmem
  simp only [composed, mem_cons, not_mem_nil, or_false] at hvariant hmem
  rcases hvariant with rfl | rfl <;> rcases hmem with heq | heq
  · have hlength := congrArg List.length (hbehind heq)
    simp at hlength
  · have hlists := hbehind heq
    cases rest with
    | nil => simp at hlists
    | cons c rest =>
      have hlength := congrArg List.length hlists
      simp at hlength
  · exact absurd (hbehind heq) (by simp)
  · exact absurd (hbehind heq) (by simp)

theorem pickModelValue_request (h : Request accepted requested available context1m) :
    ∃ id ∈ accepted, pickModelValue requested available context1m = some id := by
  rw [pickModelValue]
  cases context1m with
  | false =>
    rcases h.advertised with hmem | ⟨hcontext, -⟩
    · exact ⟨requested, h.self, by simp [hmem]⟩
    · cases hcontext
  | true =>
    cases hfind : (composed requested).find? fun id => decide (id ∈ available) with
    | some id => exact ⟨id, h.variants rfl id (mem_of_find?_eq_some hfind), by simp⟩
    | none =>
      have hmem : requested ∈ available := by
        rcases h.advertised with hmem | ⟨-, id, hid, hmem⟩
        · exact hmem
        · exact absurd hmem (by simpa using find?_eq_none.1 hfind id hid)
      exact ⟨requested, h.self, by simp [hmem]⟩

theorem exists_pickModel (preferred : List String)
    (h : Request accepted requested available context1m) :
    ∃ picked, pickModel requested preferred available context1m = some picked := by
  obtain ⟨id, -, hvalue⟩ := pickModelValue_request h
  rw [pickModel, hvalue]
  cases (pickModelId (stripVariantSuffix requested) preferred available).or
      (pickModelValue (stripVariantSuffix requested) available context1m) with
  | none => exact ⟨id, rfl⟩
  | some picked => exact ⟨picked, rfl⟩

theorem pickModelId_of_plain
    (hplain : ¬ 2 ≤ (efforts (siblings (familyKey requested) available)).length) :
    pickModelId requested preferred available = none := by
  rw [pickModelId]
  split
  · rfl
  · rw [if_pos (Nat.le_of_lt_succ (Nat.lt_of_not_le hplain))]

theorem pickModelId_of_exploded {requested : String} {preferred available : List String}
    (hexploded : 2 ≤ (efforts (siblings (familyKey requested) available)).length) :
    siblings (familyKey requested) available ≠ [] ∧
      pickModelId requested preferred available =
        ((preferred.findSome? (withEffort? (siblings (familyKey requested) available))).or
          (if requested ∈ available then some requested else none)).or
            (highest? (siblings (familyKey requested) available)) := by
  have hfamily : siblings (familyKey requested) available ≠ [] := fun hempty => by
    rw [hempty] at hexploded
    exact absurd hexploded (by decide)
  refine ⟨hfamily, ?_⟩
  rw [pickModelId, if_neg (by simpa using hfamily), if_neg (Nat.not_le_of_lt hexploded)]

theorem exists_some_iff {value : String} :
    (∃ id ∈ accepted, some value = some id) ↔ value ∈ accepted := by
  simp

variable (h : Request accepted requested available context1m)
include h

theorem baseId_accepted_iff : baseId requested ∈ accepted ↔ baseId requested = requested :=
  ⟨fun hmem => (h.only _ hmem).resolve_right (baseId_notMem_composed requested),
    fun heq => heq.symm ▸ h.self⟩

/-- The generic matcher drops the suffix of an id only where nothing of its base is
advertised. -/
theorem pickModelValue_base (hbase : baseId requested ≠ requested) :
    (∃ id ∈ accepted, (pickModelValue (baseId requested) available context1m).or
        (pickModelValue requested available context1m) = some id) ↔
      baseId requested ∉ available ∧
        (context1m = true → ∀ id ∈ composed (baseId requested), id ∉ available) ∧
        ∀ id ∈ familyValue? (baseId requested) available context1m, id ∈ accepted := by
  rw [pickModelValue]
  cases hfind : (if context1m then
      (composed (baseId requested)).find? fun id => decide (id ∈ available) else none) with
  | some id =>
    rw [ite_none_right_eq_some] at hfind
    have hmem := mem_of_find?_eq_some hfind.2
    have hadvertised : id ∈ available := by simpa using find?_some hfind.2
    refine iff_of_false ?_ fun hnone => hnone.2.1 hfind.1 id hmem hadvertised
    rw [some_or, some_or, some_or, exists_some_iff]
    intro haccepted
    rcases h.only id haccepted with heq | hvariant
    · exact h.bare hfind.1 id hmem hadvertised heq
    · exact notMem_composed_of_base hbase hmem hvariant
  | none =>
    have hvariants : context1m = true → ∀ id ∈ composed (baseId requested), id ∉ available := by
      intro hcontext id hid
      rw [hcontext, if_pos rfl] at hfind
      simpa using find?_eq_none.1 hfind id hid
    rw [none_or]
    split
    next hadvertised =>
      rw [some_or, some_or, exists_some_iff, baseId_accepted_iff h]
      exact iff_of_false hbase fun hnone => hnone.1 hadvertised
    next habsent =>
      rw [none_or]
      cases familyValue? (baseId requested) available context1m with
      | some id =>
        rw [some_or, exists_some_iff]
        simpa [habsent] using fun _ => hvariants
      | none =>
        rw [none_or]
        exact iff_of_true (pickModelValue_request h) ⟨habsent, hvariants, nofun⟩

theorem pickModel_iff_clear :
    (∃ id ∈ accepted, pickModel requested preferred available context1m = some id) ↔
      Clear accepted requested preferred available context1m := by
  rw [Clear, pickModel, stripVariantSuffix, ← familyKey_baseId]
  split
  next hexploded =>
    obtain ⟨hfamily, hpick⟩ := @pickModelId_of_exploded _ preferred _ hexploded
    rw [hpick]
    cases preferred.findSome? (withEffort? (siblings (familyKey (baseId requested)) available)) with
    | some id => exact exists_some_iff
    | none =>
      split
      next hadvertised => exact exists_some_iff.trans (baseId_accepted_iff h)
      next habsent =>
        cases hhighest : highest? (siblings (familyKey (baseId requested)) available) with
        | none =>
          rw [highest?, or_eq_none_iff, head?_eq_none_iff] at hhighest
          exact absurd hhighest.2 hfamily
        | some id => simp
  next hplain =>
    rw [pickModelId_of_plain hplain, none_or]
    by_cases hsame : baseId requested = requested
    · obtain ⟨id, hid, hpick⟩ := pickModelValue_request h
      rw [hsame, hpick]
      exact iff_of_true ⟨id, hid, rfl⟩ (.inl rfl)
    · rw [or_iff_right hsame]
      exact pickModelValue_base h hsame

end Keel.ModelPick
