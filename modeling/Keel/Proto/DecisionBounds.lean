import Keel.Foundation.Words
import Keel.Proto.Decision
import Mathlib.Data.Bool.AllAny

/-! # What bounding a receipt guarantees

A receipt is bounded when it is folded, when it is stored and every time it is
read back. Bounding always lands inside the transcript's limits. It leaves its
own result alone unless one of the texts was cut right after a space.
-/

namespace Keel

open List Text

/-- A text with control characters read as spaces and whitespace collapsed. -/
def collapsed (value : String) : List Char :=
  collapse (value.toList.map fun c => if isControl c then ' ' else c)

/-- The text mentions one of the needles. -/
def redacted (line : List Char) : Bool :=
  redactedNeedles.any fun needle => decide (needle.toList <:+: line.map toAsciiLowercase)

theorem boundedPublicText_eq (value : String) (maxChars : Nat) :
    boundedPublicText value maxChars =
      if redacted (collapsed value) then "[redacted]"
      else String.ofList ((collapsed value).take maxChars) := rfl

/-- Cutting the text to its limit does not leave a space at its end. -/
def CutsCleanly (value : String) (maxChars : Nat) : Prop :=
  redacted (collapsed value) = true ∨ (collapsed value)[maxChars - 1]? ≠ some ' '

/-- One line within its limit that mentions no needle in either case. -/
structure PublicText (maxChars : Nat) (text : String) : Prop where
  length : text.toList.length ≤ maxChars
  control : ∀ c ∈ text.toList, isControl c = false
  blank : ∀ c ∈ text.toList, isWhitespace c = true → c = ' '
  clean : ∀ needle ∈ redactedNeedles,
    ¬ needle.toList <:+: text.toList.map toAsciiLowercase

structure PublicId (id : String) : Prop where
  length : id.toList.length ≤ 64
  charset : ∀ c ∈ id.toList, isAsciiAlphanumeric c = true ∨ c ∈ ['.', '_', ':', '-']

def F64.IsUnit : F64 → Prop
  | .finite value => 0 ≤ value ∧ value ≤ 1
  | _ => False

/-! ## Public texts -/

variable {line : List Char} {maxChars : Nat}

theorem redacted_eq_false :
    redacted line = false ↔
      ∀ needle ∈ redactedNeedles, ¬ needle.toList <:+: line.map toAsciiLowercase := by
  simp [redacted]

theorem redacted_take (hline : redacted line = false) (count : Nat) :
    redacted (line.take count) = false := by
  rw [redacted_eq_false] at hline ⊢
  intro needle hneedle hinfix
  apply hline needle hneedle
  rw [map_take] at hinfix
  exact hinfix.trans (List.take_prefix _ _).isInfix

theorem isControl_of_mem_collapsed {value : String} {c : Char} (hc : c ∈ collapsed value) :
    isControl c = false := by
  obtain rfl | hc := mem_collapse hc
  · rfl
  · obtain ⟨d, -, rfl⟩ := mem_map.mp hc
    split
    · rfl
    next hd => simpa using hd

theorem collapsed_ofList (hcontrol : ∀ c ∈ line, isControl c = false) :
    collapsed (String.ofList line) = collapse line := by
  have hmap : (line.map fun c => if isControl c then ' ' else c) = line.map id := by
    apply map_congr_left
    intro c hc
    simp [hcontrol c hc]
  rw [collapsed, String.toList_ofList, hmap, map_id]

theorem boundedPublicText_ofList (htidy : Tidy line)
    (hcontrol : ∀ c ∈ line, isControl c = false) (hclean : redacted line = false)
    (hlength : line.length ≤ maxChars) :
    boundedPublicText (String.ofList line) maxChars = String.ofList line := by
  rw [boundedPublicText_eq, collapsed_ofList hcontrol, htidy.collapse_eq, hclean,
    if_neg Bool.false_ne_true, take_of_length_le hlength]

theorem boundedPublicText_append_space_ne
    (htidy : Tidy line) (hcontrol : ∀ c ∈ line ++ [' '], isControl c = false)
    (hclean : redacted (line ++ [' ']) = false) :
    boundedPublicText (String.ofList (line ++ [' '])) maxChars ≠
      String.ofList (line ++ [' ']) := by
  have hline : redacted line = false := by
    simpa using redacted_take hclean line.length
  rw [boundedPublicText_eq, collapsed_ofList hcontrol, collapse_append_space,
    htidy.collapse_eq, hline, if_neg Bool.false_ne_true]
  intro hsame
  have hlength := congrArg List.length (String.ofList_injective hsame)
  rw [length_take, length_append, length_singleton] at hlength
  omega

theorem publicText_redacted (hmax : 10 ≤ maxChars) :
    PublicText maxChars "[redacted]" where
  length := hmax
  control := all_iff_forall_prop.mp (by decide)
  blank := all_iff_forall_prop.mp (by decide)
  clean := by decide

theorem boundedPublicText_redacted (hmax : 10 ≤ maxChars) :
    boundedPublicText "[redacted]" maxChars = "[redacted]" := by
  have hword : IsWord "[redacted]".toList := ⟨by decide, all_iff_forall_prop.mp (by decide)⟩
  have hbounded := boundedPublicText_ofList hword.tidy
    (all_iff_forall_prop.mp (by decide)) (by decide)
    (show "[redacted]".toList.length ≤ maxChars from hmax)
  rwa [String.ofList_toList] at hbounded

theorem boundedPublicText_public (hmax : 10 ≤ maxChars) (value : String) :
    PublicText maxChars (boundedPublicText value maxChars) := by
  rw [boundedPublicText_eq]
  split
  · exact publicText_redacted hmax
  next hclean =>
    rw [Bool.not_eq_true] at hclean
    refine ⟨?_, ?_, ?_, ?_⟩ <;> rw [String.toList_ofList]
    · exact length_take_le maxChars (collapsed value)
    · exact fun c hc => isControl_of_mem_collapsed (mem_of_mem_take hc)
    · exact fun c hc => (tidy_collapse _).blank c (mem_of_mem_take hc)
    · exact redacted_eq_false.1 (redacted_take hclean maxChars)

theorem tidy_take_collapsed_iff {value : String} (hmax : 0 < maxChars) :
    Tidy ((collapsed value).take maxChars) ↔ (collapsed value)[maxChars - 1]? ≠ some ' ' := by
  have htidy : Tidy (collapsed value) := tidy_collapse _
  have hlast : ((collapsed value).take maxChars).getLast? =
      (collapsed value)[maxChars - 1]?.or (collapsed value).getLast? := by
    rw [getLast?_take, if_neg (by omega)]
  constructor
  · intro hcut hspace
    rw [hspace, Option.some_or] at hlast
    cases hcut.last ' ' hlast
  · intro hspace
    refine ⟨htidy.take maxChars, ?_⟩
    intro c hc
    rw [hlast, Option.mem_def, Option.or_eq_some_iff] at hc
    obtain hc | ⟨-, hc⟩ := hc
    · cases hblank : isWhitespace c with
      | false => rfl
      | true =>
        have hmem := mem_of_getElem? hc
        rw [htidy.blank c hmem hblank] at hc
        exact absurd hc hspace
    · exact htidy.last c hc

section
variable (hmax : 10 ≤ maxChars) (value : String)
include hmax value

/-- Bounding a text again changes it exactly when its cut left a space at the end. -/
theorem boundedPublicText_bounded_iff :
    boundedPublicText (boundedPublicText value maxChars) maxChars =
      boundedPublicText value maxChars ↔ CutsCleanly value maxChars := by
  rw [CutsCleanly, boundedPublicText_eq value]
  cases hclean : redacted (collapsed value) with
  | true => simp [boundedPublicText_redacted hmax]
  | false =>
    simp only [Bool.false_eq_true, if_false, false_or]
    rw [← tidy_take_collapsed_iff (by omega : 0 < maxChars)]
    have hcontrol : ∀ c ∈ (collapsed value).take maxChars, isControl c = false :=
      fun c hc => isControl_of_mem_collapsed (mem_of_mem_take hc)
    have hcleanCut := redacted_take hclean maxChars
    constructor
    · intro hstable
      have htidy : Tidy (collapsed value) := tidy_collapse _
      obtain hcut | ⟨short, hshort, hcut⟩ := (htidy.take maxChars).tidy_or_append
      · exact hcut
      · rw [hcut] at hstable hcontrol hcleanCut
        exact absurd hstable (boundedPublicText_append_space_ne hshort hcontrol hcleanCut)
    · intro hcut
      exact boundedPublicText_ofList hcut hcontrol hcleanCut
        (length_take_le maxChars (collapsed value))

/-- A text that was bounded is cut cleanly, whether or not its first cut was. -/
theorem cutsCleanly_bounded : CutsCleanly (boundedPublicText value maxChars) maxChars := by
  rw [boundedPublicText_eq]
  split
  · rw [← boundedPublicText_bounded_iff hmax]
    simp only [boundedPublicText_redacted hmax]
  next hclean =>
    rw [Bool.not_eq_true] at hclean
    have htidy : Tidy (collapsed value) := tidy_collapse _
    have hcontrol : ∀ c ∈ (collapsed value).take maxChars, isControl c = false :=
      fun c hc => isControl_of_mem_collapsed (mem_of_mem_take hc)
    have hlength : ((collapsed value).take maxChars).length ≤ maxChars :=
      length_take_le maxChars (collapsed value)
    obtain hcut | ⟨short, hshort, hcut⟩ := (htidy.take maxChars).tidy_or_append
    · have hstable := boundedPublicText_ofList hcut hcontrol (redacted_take hclean maxChars) hlength
      rw [← boundedPublicText_bounded_iff hmax]
      simp only [hstable]
    · rw [hcut] at hcontrol hlength
      rw [hcut, CutsCleanly, collapsed_ofList hcontrol, collapse_append_space,
        hshort.collapse_eq]
      rw [length_append, length_singleton] at hlength
      have hshorter : short[maxChars - 1]? = none := getElem?_eq_none (by omega)
      exact Or.inr (by simp [hshorter])

theorem cutsCleanly_iff_getLast? : CutsCleanly value maxChars ↔
      (boundedPublicText value maxChars).toList.getLast? ≠ some ' ' := by
  rw [CutsCleanly, boundedPublicText_eq]
  cases hclean : redacted (collapsed value) with
  | true => exact iff_of_true (Or.inl rfl) (by rw [if_pos rfl]; decide)
  | false =>
    have hspaced : Spaced ((collapsed value).take maxChars) :=
      (tidy_collapse _).toSpaced.take maxChars
    simp only [Bool.false_eq_true, if_false, false_or, String.toList_ofList]
    rw [← tidy_take_collapsed_iff (by omega : 0 < maxChars)]
    constructor
    · intro htidy hspace
      cases htidy.last ' ' hspace
    · intro hlast
      refine ⟨hspaced, fun c hc => ?_⟩
      cases hblank : isWhitespace c with
      | false => rfl
      | true =>
        rw [hspaced.blank c (mem_of_getLast? hc) hblank] at hc
        exact absurd hc hlast

end

/-! ## Optional texts, ids and numbers -/

theorem exists_of_mem_boundedOptionalText {value : Option String} {text : String}
    (htext : text ∈ boundedOptionalText value maxChars) :
    ∃ source ∈ value, boundedPublicText source maxChars = text := by
  rw [boundedOptionalText, Option.mem_def, Option.filter_eq_some_iff,
    Option.map_eq_some_iff] at htext
  exact htext.1

theorem boundedOptionalText_public (hmax : 10 ≤ maxChars) (value : Option String) :
    ∀ text ∈ boundedOptionalText value maxChars, PublicText maxChars text := by
  intro text htext
  obtain ⟨source, -, rfl⟩ := exists_of_mem_boundedOptionalText htext
  exact boundedPublicText_public hmax source

theorem boundedPublicText_empty (maxChars : Nat) : boundedPublicText "" maxChars = "" := by
  rw [boundedPublicText_eq, if_neg (by decide)]
  exact congrArg String.ofList take_nil

theorem boundedOptionalText_some (text : String) (maxChars : Nat) :
    boundedOptionalText (some text) maxChars =
      if boundedPublicText text maxChars = "" then none
      else some (boundedPublicText text maxChars) := by
  rw [boundedOptionalText, Option.map_some, Option.filter_some]
  split <;> simp_all

/-- An optional text changes when it is bounded again exactly when its cut left a space. -/
theorem boundedOptionalText_bounded_iff (hmax : 10 ≤ maxChars) (value : Option String) :
    boundedOptionalText (boundedOptionalText value maxChars) maxChars =
      boundedOptionalText value maxChars ↔ ∀ text ∈ value, CutsCleanly text maxChars := by
  cases value with
  | none => simp [boundedOptionalText]
  | some text =>
    simp only [Option.mem_some_iff, forall_eq']
    rw [← boundedPublicText_bounded_iff hmax, boundedOptionalText_some]
    split
    next hempty =>
      rw [hempty]
      exact iff_of_true rfl (boundedPublicText_empty maxChars)
    next hkept =>
      rw [boundedOptionalText_some]
      split
      next hempty =>
        -- the second cut leaves nothing, so it is not the first one
        rw [hempty]
        exact iff_of_false (fun h => nomatch h) fun h => hkept h.symm
      · exact Option.some_inj

/-- The cut of an optional text is clean if and only if what it leaves, if
anything, does not end in a space. -/
theorem forall_cutsCleanly_iff (hmax : 10 ≤ maxChars) (value : Option String) :
    (∀ text ∈ value, CutsCleanly text maxChars) ↔
      ∀ text ∈ (boundedOptionalText value maxChars).toList, text.toList.getLast? ≠ some ' ' := by
  cases value with
  | none => simp [boundedOptionalText]
  | some text =>
    simp only [Option.mem_some_iff, forall_eq']
    rw [cutsCleanly_iff_getLast? hmax, boundedOptionalText_some]
    split
    next hempty =>
      rw [hempty]
      exact iff_of_true (by decide) (by simp)
    · simp

/-- Bounding an id keeps the characters of the id alphabet. -/
def isIdChar (c : Char) : Bool :=
  isAsciiAlphanumeric c || c == '.' || c == '_' || c == ':' || c == '-'

theorem boundedId_eq (value : String) :
    boundedId value = String.ofList ((value.toList.filter isIdChar).take 64) := rfl

theorem boundedId_public (value : String) : PublicId (boundedId value) := by
  rw [boundedId_eq]
  constructor <;> rw [String.toList_ofList]
  · exact length_take_le 64 _
  · intro c hc
    have hmem := mem_filter.mp (mem_of_mem_take hc)
    simpa [isIdChar, or_assoc] using hmem.2

theorem boundedId_of_public {id : String} (hid : PublicId id) : boundedId id = id := by
  have hkept : ∀ c ∈ id.toList, isIdChar c = true := by
    intro c hc
    simpa [isIdChar, or_assoc] using hid.charset c hc
  rw [boundedId_eq, filter_eq_self.mpr hkept, take_of_length_le hid.length,
    String.ofList_toList]

theorem boundedUnit_isUnit (value : Option F64) : ∀ number ∈ boundedUnit value, number.IsUnit := by
  intro number hnumber
  rw [boundedUnit, Option.mem_def, Option.map_eq_some_iff] at hnumber
  obtain ⟨source, hsource, rfl⟩ := hnumber
  cases source with
  | nan | infinite negative => simp [F64.isFinite] at hsource
  | finite value => exact ⟨le_max_left _ _, max_le zero_le_one (min_le_right _ _)⟩

theorem boundedUnit_of_isUnit {value : Option F64} (hvalue : ∀ number ∈ value, number.IsUnit) :
    boundedUnit value = value := by
  cases value with
  | none => rfl
  | some number =>
    cases number with
    | nan | infinite negative => exact (hvalue _ rfl).elim
    | finite value =>
      obtain ⟨hlow, hhigh⟩ := hvalue _ rfl
      simp [boundedUnit, F64.isFinite, F64.clampUnit, hlow, hhigh]

/-! ## Receipts -/

namespace DecisionEvent

/-- The receipt is inside the limits of the transcript. -/
structure Closed (event : DecisionEvent) : Prop where
  id : PublicId event.id
  candidates : event.candidates.length ≤ 16
  candidate : ∀ candidate ∈ event.candidates,
    PublicId candidate.id ∧ PublicText 96 candidate.summary
  selected : ∀ candidateId, event.result = .selected candidateId → PublicId candidateId
  confidence : ∀ number ∈ event.confidence, number.IsUnit
  selectedProbability : ∀ number ∈ event.selectedProbability, number.IsUnit
  fit : ∀ number ∈ event.fit, number.IsUnit
  fallback : ∀ text ∈ event.fallback, PublicText 160 text
  observedOutcome : ∀ text ∈ event.observedOutcome, PublicText 240 text

/-- None of the texts that bounding keeps is cut right after a space. -/
def CutsCleanly (event : DecisionEvent) : Prop :=
  (∀ candidate ∈ event.candidates.take decisionEventMaxCandidates,
    Keel.CutsCleanly candidate.summary 96) ∧
  (∀ text ∈ event.fallback, Keel.CutsCleanly text 160) ∧
  ∀ text ∈ event.observedOutcome, Keel.CutsCleanly text 240

theorem bounded_closed (event : DecisionEvent) : event.bounded.Closed where
  id := boundedId_public event.id
  candidates := by
    rw [bounded, length_map]
    exact length_take_le decisionEventMaxCandidates event.candidates
  candidate := by
    rw [bounded, forall_mem_map]
    intro candidate _
    exact ⟨boundedId_public candidate.id, boundedPublicText_public (by decide) candidate.summary⟩
  selected := by
    intro candidateId hresult
    rw [bounded_result] at hresult
    cases hsource : event.result with
    | selected source =>
      rw [hsource] at hresult
      cases hresult
      exact boundedId_public source
    | abstained =>
      rw [hsource] at hresult
      cases hresult
  confidence := boundedUnit_isUnit event.confidence
  selectedProbability := boundedUnit_isUnit event.selectedProbability
  fit := boundedUnit_isUnit event.fit
  fallback := boundedOptionalText_public (by decide) event.fallback
  observedOutcome := boundedOptionalText_public (by decide) event.observedOutcome

theorem Closed.bounded_eq_iff {event : DecisionEvent} (hclosed : event.Closed)
    (hversion : event.schemaVersion = decisionEventSchemaVersion) :
    event.bounded = event ↔
      (∀ candidate ∈ event.candidates,
        boundedPublicText candidate.summary 96 = candidate.summary) ∧
      boundedOptionalText event.fallback 160 = event.fallback ∧
      boundedOptionalText event.observedOutcome 240 = event.observedOutcome := by
  have hresult : event.result.bounded = event.result := by
    cases hsource : event.result with
    | selected candidateId =>
      exact congrArg DecisionResult.selected (boundedId_of_public (hclosed.selected _ hsource))
    | abstained => rfl
  have hcandidates : event.bounded.candidates = event.candidates ↔ ∀ candidate ∈ event.candidates,
      boundedPublicText candidate.summary 96 = candidate.summary := by
    have htake : event.candidates.take decisionEventMaxCandidates = event.candidates :=
      take_of_length_le hclosed.candidates
    rw [bounded, htake]
    nth_rewrite 2 [← map_id event.candidates]
    rw [map_inj_left]
    apply forall₂_congr
    intro candidate hcandidate
    have hid := boundedId_of_public (hclosed.candidate candidate hcandidate).1
    rw [hid]
    constructor
    · exact congrArg DecisionCandidate.summary
    · exact congrArg (DecisionCandidate.mk candidate.id)
  have hkept : event.bounded =
      { event with
        candidates := event.bounded.candidates
        fallback := boundedOptionalText event.fallback 160
        observedOutcome := boundedOptionalText event.observedOutcome 240 } := by
    rw [bounded, boundedId_of_public hclosed.id, hresult, boundedUnit_of_isUnit hclosed.confidence,
      boundedUnit_of_isUnit hclosed.selectedProbability, boundedUnit_of_isUnit hclosed.fit,
      hversion]
  rw [← hcandidates]
  constructor
  · intro hsame
    exact ⟨congrArg DecisionEvent.candidates hsame, congrArg DecisionEvent.fallback hsame,
      congrArg DecisionEvent.observedOutcome hsame⟩
  · rintro ⟨hsame, hfallback, hobserved⟩
    rw [hkept, hsame, hfallback, hobserved]

/-- Bounding again changes a receipt exactly when one of its texts was cut after a space. -/
theorem bounded_bounded_iff (event : DecisionEvent) :
    event.bounded.bounded = event.bounded ↔ event.CutsCleanly := by
  rw [event.bounded_closed.bounded_eq_iff rfl, CutsCleanly]
  refine and_congr ?_ (and_congr ?_ ?_)
  · rw [bounded, forall_mem_map]
    apply forall₂_congr
    intro candidate _
    exact boundedPublicText_bounded_iff (by decide) candidate.summary
  · exact boundedOptionalText_bounded_iff (by decide) event.fallback
  · exact boundedOptionalText_bounded_iff (by decide) event.observedOutcome

theorem bounded_bounded_bounded (event : DecisionEvent) :
    event.bounded.bounded.bounded = event.bounded.bounded := by
  rw [bounded_bounded_iff]
  refine ⟨?_, ?_, ?_⟩
  · intro candidate hcandidate
    obtain ⟨source, -, rfl⟩ := mem_map.mp (mem_of_mem_take hcandidate)
    exact cutsCleanly_bounded (by decide) source.summary
  · intro text htext
    obtain ⟨source, -, rfl⟩ := exists_of_mem_boundedOptionalText htext
    exact cutsCleanly_bounded (by decide) source
  · intro text htext
    obtain ⟨source, -, rfl⟩ := exists_of_mem_boundedOptionalText htext
    exact cutsCleanly_bounded (by decide) source

def texts (event : DecisionEvent) : List String :=
  event.candidates.map DecisionCandidate.summary ++ event.fallback.toList ++
    event.observedOutcome.toList

/-- A bounded receipt is stable if and only if none of its texts ends in a space. -/
theorem bounded_bounded_iff_texts (event : DecisionEvent) :
    event.bounded.bounded = event.bounded ↔
      ∀ text ∈ event.bounded.texts, text.toList.getLast? ≠ some ' ' := by
  rw [bounded_bounded_iff, CutsCleanly, texts, forall_mem_append, forall_mem_append,
    and_assoc]
  refine and_congr ?_ (and_congr ?_ ?_)
  · rw [forall_mem_map, bounded, forall_mem_map]
    apply forall₂_congr
    intro candidate _
    exact cutsCleanly_iff_getLast? (by decide) candidate.summary
  · exact forall_cutsCleanly_iff (by decide) event.fallback
  · exact forall_cutsCleanly_iff (by decide) event.observedOutcome

end DecisionEvent

/-- Bounding a receipt lands inside the limits, and bounding it again leaves it
alone if and only if none of its texts is cut right after a space. -/
theorem decision_bounding (event : DecisionEvent) :
    event.bounded.Closed ∧ (event.bounded.bounded = event.bounded ↔ event.CutsCleanly) :=
  ⟨event.bounded_closed, event.bounded_bounded_iff⟩

/-- Letters, a space and one more letter. -/
def spacedSummary (count : Nat) : String := String.ofList (List.replicate count 'a' ++ [' ', 'b'])

theorem collapsed_spacedSummary {count : Nat} (hcount : 0 < count) :
    collapsed (spacedSummary count) = List.replicate count 'a' ++ [' ', 'b'] := by
  have hfirst : IsWord (List.replicate count 'a') := by
    refine ⟨?_, ?_⟩
    · simpa using hcount.ne'
    · intro c hc
      rw [eq_of_mem_replicate hc]
      rfl
  have hsecond : IsWord ['b'] := ⟨by decide, all_iff_forall_prop.mp (by decide)⟩
  have hcontrol : ∀ c ∈ List.replicate count 'a' ++ [' ', 'b'], isControl c = false := by
    intro c hc
    rw [mem_append] at hc
    obtain hc | hc := hc
    · rw [eq_of_mem_replicate hc]
      rfl
    · revert c
      exact all_iff_forall_prop.mp (by decide)
  rw [spacedSummary, collapsed_ofList hcontrol, collapse_eq_self_iff]
  exact hfirst.tidy_append hsecond.tidy (cons_ne_nil 'b' [])

/-- The receipt with this one candidate loses the space when it is bounded again. -/
theorem decision_bounding_spaced :
    ¬ ∀ event : DecisionEvent, event.bounded.bounded = event.bounded ∧ event.bounded.Closed := by
  intro hstable
  have hcuts := (DecisionEvent.bounded_bounded_iff _).mp <| And.left <| hstable
    { schemaVersion := 1, id := "decision-1", taskRevision := 1, backend := .laya, stage := .intake
      candidates := [⟨"reply", spacedSummary 95⟩], result := .selected "reply", validation := .accepted
      confidence := none, selectedProbability := none, fit := none
      fallback := none, observedOutcome := none, createdAt := 1 }
  have hsummary := hcuts.1 ⟨"reply", spacedSummary 95⟩ mem_cons_self
  rw [CutsCleanly, collapsed_spacedSummary (by decide)] at hsummary
  revert hsummary
  decide +kernel

end Keel
