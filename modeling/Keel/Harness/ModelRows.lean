import Keel.Harness.ModelPick
import Keel.Proto.Agent
import Keel.Proto.JsonFields

/-! # Advertised models and the model that runs

An agent advertises its models as the choices of a session's config option. The picker shows
them as rows, with a long-context variant folded into the row of its base, and a run sends
the id of its row back through the matchers. A matcher that was made for ids with an effort
in them, or with parameters in brackets, runs for every agent: it switches to another
advertised model wherever the ids of an agent look like that.
-/

namespace Keel.ModelRows

open ModelPick List Option

/-! ## The session response -/

def strField (json : Json) (key : String) : Option String := (json.field? key).bind Json.str?

def listField (json : Json) (key : String) : List Json :=
  ((json.field? key).bind Json.array?).getD []

def configOptions (session : Json) : List Json := listField session "configOptions"

/-- The values of a config option's choices. -/
def advertised (option : Json) : List String :=
  (listField option "options").filterMap (strField · "value")

def hasCategory (category : String) (option : Json) : Bool :=
  strField option "category" == some category

/-- The config option the picker takes its rows from. -/
def modelOption? (session : Json) : Option Json :=
  (configOptions session).find? (hasCategory "model")

/-! ## What a run sets -/

abbrev ModelOptions := List (String × Json)

def isLongWindow (window : String) : Bool := lower window == "1m"

def contextWindow? (modelOptions : ModelOptions) : Option String :=
  (modelOptions.lookup "contextWindow").bind Json.str?

def context1m (modelOptions : ModelOptions) : Bool := (contextWindow? modelOptions).any isLongWindow

def isSelect (option : Json) : Bool := strField option "type" == some "select"

/-- The choice of a run for a config option that is no model, mode or effort. -/
def optionChoice? (option : Json) (configId optionId : String) (choice : Json) : Option Json :=
  if normId optionId ≠ normId configId ∨ optionId = "contextWindow" then none
  else if isSelect option then
    (choice.str?.filter fun value => decide (value ∈ advertised option)).map .string
  else if strField option "type" = some "boolean" then
    some (.bool (decide (choice = .bool true) || choice.str?.any fun value => lower value == "on"))
  else none

/-- The value a run wants a config option to have. -/
def wanted (option : Json) (configId : String) (model : Option String) (efforts : List String)
    (modelOptions : ModelOptions) : Option Json :=
  if isSelect option ∧ hasCategory "model" option then
    (model.bind fun requested =>
      pickModel requested efforts (advertised option) (context1m modelOptions)).map .string
  else if isSelect option ∧ hasCategory "mode" option then
    (((modelOptions.lookup "mode").bind Json.str?).filter fun value =>
      decide (value ∈ advertised option)).map .string
  else if isSelect option ∧ hasCategory "thought_level" option then
    (efforts.find? fun value => decide (value ∈ advertised option)).map .string
  else modelOptions.findSome? fun (optionId, choice) => optionChoice? option configId optionId choice

def payload : Json → Json
  | .bool value => .object [("type", .string "boolean"), ("value", .bool value)]
  | value => .object [("value", value)]

/-- What is sent for a config option: nothing if it has the wanted value already. -/
def configOptionSet (model : Option String) (efforts : List String) (modelOptions : ModelOptions)
    (option : Json) : Option (String × Json) :=
  (strField option "id").bind fun configId =>
    (wanted option configId model efforts modelOptions).bind fun value =>
      if option.field? "currentValue" = some value then none else some (configId, payload value)

def configOptionSets (session : Json) (model : Option String) (efforts : List String)
    (modelOptions : ModelOptions) : List (String × Json) :=
  (configOptions session).filterMap (configOptionSet model efforts modelOptions)

/-! ## The rows of the picker -/

structure ModelOptionChoice where
  id : String
  label : String

structure ModelOption where
  id : String
  label : String
  choices : List ModelOptionChoice
  defaultChoice : String

structure Model where
  id : String
  label : String
  description : Option String
  reasoningLevels : List ReasoningLevel
  options : List ModelOption

def contextWindow : ModelOption :=
  ⟨"contextWindow", "Context Window", [⟨"200k", "200K"⟩, ⟨"1m", "1M"⟩], "200k"⟩

/-- The default context window of a row; a trait behind another of its id is the one set. -/
def Model.defaultWindow? (row : Model) : Option String :=
  (row.options.reverse.find? fun option => option.id == "contextWindow").map (·.defaultChoice)

def reasoningLevels : List (String × ReasoningLevel) :=
  [("minimal", .minimal), ("low", .low), ("medium", .medium), ("high", .high),
    ("xhigh", .xHigh), ("max", .max), ("ultra", .ultra), ("ultracode", .ultracode),
    ("ultrathink", .ultrathink)]

def reasoningFromValue (value : String) : Option ReasoningLevel :=
  (reasoningLevels.find? fun (name, _) => name.toList == normId value).map Prod.snd

def offOn : List ModelOptionChoice := [⟨"off", "Off"⟩, ⟨"on", "On"⟩]

/-- A config option as a trait. Mode, model and effort are shown elsewhere. -/
def traitFromConfigOption (option : Json) : Option ModelOption :=
  if hasCategory "mode" option ∨ hasCategory "model" option ∨ hasCategory "thought_level" option then
    none
  else
    (strField option "id").bind fun id =>
      let label := (strField option "name").getD id
      (strField option "type").bind fun kind =>
        if kind = "select" then
          ((option.field? "options").bind Json.array?).bind fun items =>
            let choices := items.filterMap fun item =>
              (strField item "value").map fun value =>
                (⟨value, (strField item "name").getD value⟩ : ModelOptionChoice)
            ((strField option "currentValue").or (choices.head?.map (·.id))).bind fun initial =>
              if 1 < choices.length then some ⟨id, label, choices, initial⟩ else none
        else if kind = "boolean" then
          some ⟨id, label, offOn,
            if option.field? "currentValue" = some (.bool true) then "on" else "off"⟩
        else none

section Rows

variable (session : Json) (catalog : List Model)

/-- The efforts of the model that is active in the session. -/
def ladder : List ReasoningLevel :=
  (((configOptions session).find? (hasCategory "thought_level")).map advertised).getD []
    |>.filterMap reasoningFromValue

def activeModel : Option String := (modelOption? session).bind (strField · "currentValue")

def wireOptions : List ModelOption := (configOptions session).filterMap traitFromConfigOption

def exactRow (id : String) : Option Model := catalog.find? fun row => normId row.id == normId id

/-- The catalog's first row of a family alias. -/
def aliasRow (id : String) : Option Model :=
  if normId id ≠ [] ∧ (normId id).all Char.isAlpha then
    catalog.find? fun row => decide (normId id <:+: normId row.id)
  else none

def build (id : String) (name description : Option String) (options : List ModelOption) : Model :=
  let aliased := if (exactRow catalog id).isNone then aliasRow catalog id else none
  let known := (exactRow catalog id).or aliased
  { id
    label := (((aliased.map (·.label)).or name).or (known.map (·.label))).getD id
    description := ((aliased.bind (·.description)).or description).or (known.bind (·.description))
    reasoningLevels :=
      if ladder session ≠ [] ∧ activeModel session = some id then ladder session
      else ((known.filter fun row => !row.reasoningLevels.isEmpty).map
        (·.reasoningLevels)).getD (ladder session)
    options }

/-- A wire name without its trailing parenthetical. -/
def stripTrailingParenthetical (name : String) : String :=
  match Text.splitBeforeLast " (".toList name.toList with
  | some (before, _) =>
    if name.toList.getLast? = some ')' then String.ofList (Text.trimEnd before) else name
  | none => name

/-- The row of a choice. A long-context variant folds into the row of its base, or is shown
as its base with the long window. -/
def selectRow (rawIds : List String) (choice : Json) : Option Model :=
  (strField choice "value").bind fun id =>
    if rawIds.any (fun raw => normId raw ≠ "default".toList) ∧ normId id = "default".toList then
      none
    else
      let name := strField choice "name"
      let description := strField choice "description"
      match stripContextHint id with
      | some base =>
        if base ∈ rawIds then none
        else some (build session catalog base
          ((name.map stripTrailingParenthetical).filter fun name => !name.isEmpty) description
          (wireOptions session ++ [{ contextWindow with defaultChoice := "1m" }]))
      | none =>
        let window := if rawIds.any fun raw => stripContextHint raw == some id then
          [contextWindow] else []
        some (build session catalog id name description (wireOptions session ++ window))

/-- The rows of an agent that has no session config options yet. -/
def legacyRow (item : Json) : Option Model :=
  (strField item "modelId").map fun id =>
    build session catalog id (strField item "name") (strField item "description")
      (((exactRow catalog id).map (·.options)).getD [])

def modelsFromSession : List Model :=
  let select := ((modelOption? session).map (listField · "options")).getD []
  if select.isEmpty then
    (listField ((session.field? "models").getD .null) "availableModels").filterMap
      (legacyRow session catalog)
  else select.filterMap (selectRow session catalog (select.filterMap (strField · "value")))

end Rows

/-! ## The rows and the ids they stand for -/

variable {id base : String} {row : Model}

theorem eq_append_of_stripSuffix {suffix : String} (h : stripSuffix suffix id = some base) :
    id = base ++ suffix := by
  rw [stripSuffix, ite_none_right_eq_some] at h
  obtain ⟨⟨before, hbefore⟩, hbase⟩ := h
  cases hbase
  refine String.ext ?_
  rw [String.toList_append, String.toList_ofList, ← hbefore]
  simp

theorem stripSuffix_append (suffix id : String) : stripSuffix suffix (id ++ suffix) ≠ none := by
  rw [stripSuffix, if_pos]
  · exact nofun
  · rw [String.toList_append]
    exact suffix_append _ _

theorem mem_composed_of_stripContextHint (h : stripContextHint id = some base) :
    id ∈ composed base := by
  rw [stripContextHint, or_eq_some_iff] at h
  rcases h with h | ⟨-, h⟩
  · rw [eq_append_of_stripSuffix h]
    exact mem_cons_self
  · rw [eq_append_of_stripSuffix h]
    exact mem_cons_of_mem _ mem_cons_self

theorem stripContextHint_of_mem_composed (h : id ∈ composed base) : stripContextHint id ≠ none := by
  rw [stripContextHint, Ne, or_eq_none_iff]
  rintro ⟨hbracket, hdash⟩
  simp only [composed, mem_cons, not_mem_nil, or_false] at h
  rcases h with rfl | rfl
  · exact stripSuffix_append _ _ hbracket
  · exact stripSuffix_append _ _ hdash

/-- A row stands for an advertised id without a hint, or for the base of one whose base is not
advertised, with the long window. -/
theorem selectRow_eq_some {session : Json} {catalog : List Model} {rawIds : List String}
    {choice : Json} (hraw : ∀ id, strField choice "value" = some id → id ∈ rawIds)
    (hrow : selectRow session catalog rawIds choice = some row) :
    (row.id ∈ rawIds ∧ stripContextHint row.id = none) ∨
      (row.id ∉ rawIds ∧ (∃ id ∈ composed row.id, id ∈ rawIds) ∧
        row.defaultWindow? = some "1m") := by
  rw [selectRow, bind_eq_some_iff] at hrow
  obtain ⟨id, hid, hrow⟩ := hrow
  rw [ite_none_left_eq_some] at hrow
  replace hrow := hrow.2
  cases hhint : stripContextHint id with
  | none =>
    rw [hhint] at hrow
    cases hrow
    exact .inl ⟨hraw id hid, hhint⟩
  | some base =>
    rw [hhint, ite_none_left_eq_some] at hrow
    obtain ⟨hbase, hrow⟩ := hrow
    cases hrow
    refine .inr ⟨hbase, ⟨id, mem_composed_of_stripContextHint hhint, hraw id hid⟩, ?_⟩
    simp [Model.defaultWindow?, build, contextWindow]

theorem row_of_advertised {session option : Json} {catalog : List Model}
    (hoption : modelOption? session = some option) (hadvertised : advertised option ≠ [])
    (hrow : row ∈ modelsFromSession session catalog) :
    (row.id ∈ advertised option ∧ stripContextHint row.id = none) ∨
      (row.id ∉ advertised option ∧ (∃ id ∈ composed row.id, id ∈ advertised option) ∧
        row.defaultWindow? = some "1m") := by
  have hselect : listField option "options" ≠ [] := fun hempty => hadvertised <| by
    rw [advertised, hempty, List.filterMap_nil]
  simp only [modelsFromSession, hoption, map_some, getD_some,
    List.isEmpty_iff, hselect, if_false] at hrow
  obtain ⟨choice, hchoice, hrow⟩ := List.mem_filterMap.1 hrow
  exact selectRow_eq_some (fun id hid => List.mem_filterMap.2 ⟨choice, hchoice, hid⟩) hrow

theorem request_of_row {session option : Json} {catalog : List Model}
    {modelOptions : ModelOptions} (hoption : modelOption? session = some option)
    (hadvertised : advertised option ≠ []) (hrow : row ∈ modelsFromSession session catalog)
    (hwindow : contextWindow? modelOptions = row.defaultWindow?) :
    Request (row.id :: composed row.id) row.id (advertised option) (context1m modelOptions) := by
  have hrow := row_of_advertised hoption hadvertised hrow
  refine ⟨?_, fun id hid => mem_cons.1 hid, mem_cons_self,
    fun _ id hid => mem_cons_of_mem _ hid, ?_⟩
  · rcases hrow with ⟨hmem, -⟩ | ⟨-, hvariant, hlong⟩
    · exact .inl hmem
    · refine .inr ⟨?_, hvariant⟩
      rw [context1m, hwindow, hlong]
      decide
  · rintro _ id hid hmem rfl
    rcases hrow with ⟨-, hbare⟩ | ⟨habsent, -⟩
    · exact stripContextHint_of_mem_composed hid hbare
    · exact habsent hmem

/-! ## The model that runs -/

/-- The option has the value once the set for it is made: it is sent, or current. -/
def SetsTo (option : Json) (model : Option String) (efforts : List String)
    (modelOptions : ModelOptions) (value : String) : Prop :=
  ∃ configId, strField option "id" = some configId ∧
    configOptionSet model efforts modelOptions option =
      if option.field? "currentValue" = some (.string value) then none
      else some (configId, .object [("value", .string value)])

def IsModelSelect (option : Json) : Prop :=
  isSelect option = true ∧ hasCategory "model" option = true ∧ (strField option "id").isSome

theorem setsTo_iff {option : Json} (hselect : IsModelSelect option) {requested : String}
    {preferred : List String} {modelOptions : ModelOptions} {picked : String}
    (hpicked : pickModel requested preferred (advertised option) (context1m modelOptions) =
      some picked) (value : String) :
    SetsTo option (some requested) preferred modelOptions value ↔ picked = value := by
  obtain ⟨hkind, hcategory, hid⟩ := hselect
  obtain ⟨configId, hid⟩ := isSome_iff_exists.1 hid
  have hwanted : wanted option configId (some requested) preferred modelOptions =
      some (.string picked) := by
    rw [wanted, if_pos ⟨hkind, hcategory⟩, bind_some, hpicked]
    rfl
  simp only [SetsTo, hid, configOptionSet, bind_some, hwanted]
  constructor
  · rintro ⟨_, ⟨⟩, hset⟩
    split at hset
    next hcurrent =>
      split at hset
      next hvalue => exact Json.string.inj (mem_unique hcurrent hvalue)
      · cases hset
    · split at hset
      · cases hset
      · simp only [payload, Option.some.injEq, Prod.mk.injEq, true_and, Json.object.injEq,
          List.cons.injEq, and_true, Json.string.injEq] at hset
        exact hset
  · rintro rfl
    exact ⟨configId, rfl, rfl⟩

/-- A model select runs the id it is asked for exactly when the matchers keep it, and a row
of the picker runs the id it stands for exactly when it comes from a model select and they
keep its id or take its long-context variant. -/
theorem advertised_model_runs_iff (session : Json) (catalog : List Model)
    (preferred : List String) (modelOptions : ModelOptions) :
    (∀ option ∈ configOptions session, ∀ requested, IsModelSelect option →
      requested ∈ advertised option → context1m modelOptions = false →
      (SetsTo option (some requested) preferred modelOptions requested ↔
        Clear [requested] requested preferred (advertised option) false)) ∧
    ∀ row ∈ modelsFromSession session catalog,
      contextWindow? modelOptions = row.defaultWindow? →
      ((∃ option, modelOption? session = some option ∧ IsModelSelect option ∧
          ∃ value ∈ advertised option, value ∈ row.id :: composed row.id ∧
            SetsTo option (some row.id) preferred modelOptions value) ↔
        ∃ option, modelOption? session = some option ∧ IsModelSelect option ∧
          advertised option ≠ [] ∧
          Clear (row.id :: composed row.id) row.id preferred (advertised option)
            (context1m modelOptions)) := by
  constructor
  · intro option _ requested hselect hmem hshort
    have hrequest : Request [requested] requested (advertised option) false :=
      ⟨.inl hmem, fun id hid => .inl (mem_singleton.1 hid), mem_singleton.2 rfl, nofun,
        nofun⟩
    obtain ⟨picked, hpicked⟩ := exists_pickModel preferred hrequest
    rw [← pickModel_iff_clear hrequest, setsTo_iff hselect (hshort ▸ hpicked), hpicked]
    simp
  · intro row hrow hwindow
    refine exists_congr fun option => and_congr_right fun hoption => and_congr_right fun hselect => ?_
    by_cases hadvertised : advertised option = []
    · simp [hadvertised]
    · have hrequest := request_of_row hoption hadvertised hrow hwindow
      obtain ⟨picked, hpicked⟩ := exists_pickModel preferred hrequest
      rw [and_iff_right hadvertised, ← pickModel_iff_clear hrequest]
      constructor
      · rintro ⟨value, -, haccepted, hset⟩
        exact ⟨value, haccepted, (setsTo_iff hselect hpicked value).1 hset ▸ hpicked⟩
      · rintro ⟨value, haccepted, hvalue⟩
        exact ⟨value, mem_of_pickModel hvalue, haccepted, (setsTo_iff hselect hvalue value).2 rfl⟩

section Examples

def select (current : String) (values : List String) : Json :=
  .object [("id", .string "model"), ("type", .string "select"), ("category", .string "model"),
    ("currentValue", .string current),
    ("options", .array (values.map fun value => .object [("value", .string value)]))]

def sessionOf (option : Json) : Json := .object [("configOptions", .array [option])]

/-- A long-context variant whose base is advertised too. -/
def contexts : Json := select "haiku" ["haiku", "sonnet", "sonnet[1m]"]

def exploded : Json := select "gpt-5" ["gpt-5-high", "gpt-5-low"]

/-- Long-context variants with an effort in them, and no bases. -/
def orphans : Json := select "opus-low[1m]" ["opus-low[1m]", "opus-high[1m]"]

theorem isModelSelect_select (current : String) (values : List String) :
    IsModelSelect (select current values) := ⟨rfl, rfl, rfl⟩

theorem not_advertised_model_runs :
    ("sonnet[1m]" ∈ advertised contexts ∧
      configOptionSets (sessionOf contexts) (some "sonnet[1m]") [] [] =
        [("model", .object [("value", .string "sonnet")])] ∧
      ¬ SetsTo contexts (some "sonnet[1m]") [] [] "sonnet[1m]") ∧
    ("gpt-5-low" ∈ advertised exploded ∧
      configOptionSets (sessionOf exploded) (some "gpt-5-low") ["high"] [] =
        [("model", .object [("value", .string "gpt-5-high")])] ∧
      ¬ SetsTo exploded (some "gpt-5-low") ["high"] [] "gpt-5-low") ∧
    ∃ row ∈ modelsFromSession (sessionOf orphans) [],
      row.id = "opus-low" ∧ row.defaultWindow? = some "1m" ∧
      configOptionSets (sessionOf orphans) (some "opus-low") ["high"]
          [("contextWindow", .string "1m")] =
        [("model", .object [("value", .string "opus-high[1m]")])] ∧
      ∀ value ∈ row.id :: composed row.id, ¬ SetsTo orphans (some row.id) ["high"]
        [("contextWindow", .string "1m")] value := by
  have hcontexts := @setsTo_iff _ (isModelSelect_select "haiku" _) "sonnet[1m]" [] [] "sonnet"
    (by decide +kernel : pickModel _ _ (advertised contexts) _ = _)
  have hexploded := @setsTo_iff _ (isModelSelect_select "gpt-5" _) "gpt-5-low" ["high"] []
    "gpt-5-high" (by decide +kernel : pickModel _ _ (advertised exploded) _ = _)
  have horphans := @setsTo_iff _ (isModelSelect_select "opus-low[1m]" _) "opus-low" ["high"]
    [("contextWindow", .string "1m")] "opus-high[1m]"
    (by decide +kernel : pickModel _ _ (advertised orphans) _ = _)
  refine ⟨⟨by decide +kernel, by decide +kernel, fun hset => ?_⟩,
    ⟨by decide +kernel, by decide +kernel, fun hset => ?_⟩, ?_⟩
  · exact absurd ((hcontexts _).1 hset) (by decide)
  · exact absurd ((hexploded _).1 hset) (by decide)
  · have hrow : ((modelsFromSession (sessionOf orphans) []).head?.map fun row =>
        (row.id, row.defaultWindow?)) = some ("opus-low", some "1m") := by decide +kernel
    obtain ⟨row, hhead, hfields⟩ := map_eq_some_iff.mp hrow
    simp only [Prod.mk.injEq] at hfields
    refine ⟨row, mem_of_mem_head? hhead, hfields.1, hfields.2, by decide +kernel, ?_⟩
    rw [hfields.1]
    intro value hvalue hset
    exact absurd ((horphans value).1 hset ▸ hvalue) (by decide +kernel)

end Examples

end Keel.ModelRows
