import Keel.Doc.PartGrowth

/-! # What folded parts say

The text and the tool ids of a list of parts, and what one event adds to them.
-/

namespace Keel

open List

def partsText (parts : List MessagePart) : String := String.join (parts.map MessagePart.textOf)

def toolIds (parts : List MessagePart) : List String := parts.filterMap MessagePart.toolId?

@[simp] theorem partsText_nil : partsText [] = "" := rfl

@[simp] theorem partsText_append (first second : List MessagePart) :
    partsText (first ++ second) = partsText first ++ partsText second := by
  simp [partsText, String.join_append]

@[simp] theorem partsText_singleton (part : MessagePart) : partsText [part] = part.textOf := by
  simp [partsText]

def AgentEvent.deltas : AgentEvent → List String
  | .textDelta text => [text]
  | _ => []

theorem partsText_map {change : MessagePart → MessagePart}
    (hchange : ∀ part, (change part).textOf = part.textOf) (parts : List MessagePart) :
    partsText (parts.map change) = partsText parts := by
  simp only [partsText, map_map]
  congr 1
  exact map_congr_left fun part _ => hchange part

theorem toolIds_map {change : MessagePart → MessagePart}
    (hchange : ∀ part, (change part).toolId? = part.toolId?) (parts : List MessagePart) :
    toolIds (parts.map change) = toolIds parts := by
  simp only [toolIds, filterMap_map]
  congr 1
  exact funext hchange

variable {old new fresh : MessagePart} {id : String} {out : List MessagePart}

attribute [local simp] MessagePart.textOf foldEventIntoParts AgentEvent.deltas

theorem Evolves.toolId? (hevolves : Evolves old new) : new.toolId? = old.toolId? := by
  cases hevolves with
  | tool hid hresolved => simp [MessagePart.toolId?, hid]
  | _ => rfl

theorem textOf_refreshCall {call : ToolCall}
    (hnew : MessagePart.refreshCall id call old = some new) : new.textOf = old.textOf := by
  cases Evolves.refreshCall hnew with
  | text => cases hnew
  | _ => rfl

theorem textOf_refreshDecision {event : DecisionEvent}
    (hnew : MessagePart.refreshDecision id event old = some new) : new.textOf = old.textOf := by
  cases Evolves.refreshDecision hnew with
  | text => cases hnew
  | _ => rfl

theorem textOf_applyResult [LineDiff] (id : String) (isError : Bool) (diff : Option ToolDiff)
    (part : MessagePart) : (part.applyResult id isError diff).textOf = part.textOf := by
  cases part with
  | tool fields =>
    simp only [MessagePart.applyResult]
    split <;> rfl
  | _ => rfl

theorem textOf_resolveInput (requestId : String) (part : MessagePart) :
    (part.resolveInput requestId).textOf = part.textOf := by
  cases part with
  | input id rid questions resolved =>
    simp only [MessagePart.resolveInput]
    split <;> rfl
  | _ => rfl

theorem partsText_refreshOrPush {refresh : MessagePart → Option MessagePart}
    (hfresh : fresh.textOf = "")
    (hrefresh : ∀ {old new}, refresh old = some new → new.textOf = old.textOf)
    (out : List MessagePart) : partsText (refreshOrPush refresh fresh out) = partsText out := by
  unfold refreshOrPush
  split
  · simp only [partsText]
    congr 1
    exact lookmap_map_eq refresh MessagePart.textOf
      (fun old new hnew => (hrefresh hnew).symm) out
  · simp [-MessagePart.textOf, hfresh]

theorem partsText_pushText (out : List MessagePart) (text : String) :
    partsText (pushText out text) = partsText out ++ text := by
  unfold pushText
  split
  next id tail hlast =>
    nth_rewrite 2 [← dropLast_append_getLast? _ hlast]
    simp [String.append_assoc]
  · simp

theorem partsText_foldEventIntoParts [LineDiff] (out : List MessagePart) {event : AgentEvent}
    (hclears : event.clears = false) :
    partsText (foldEventIntoParts out event) = partsText out ++ String.join event.deltas := by
  cases event with
  | sessionStarted | steered => cases hclears
  | textDelta text => simpa [foldEventIntoParts, AgentEvent.deltas] using partsText_pushText out text
  | decision event =>
    simpa [foldEventIntoParts, AgentEvent.deltas] using
      partsText_refreshOrPush rfl textOf_refreshDecision out
  | toolCall id call =>
    simpa [foldEventIntoParts, AgentEvent.deltas] using
      partsText_refreshOrPush rfl textOf_refreshCall out
  | toolResult id isError output diff =>
    simpa [foldEventIntoParts, AgentEvent.deltas] using
      partsText_map (textOf_applyResult id isError diff) out
  | inputRequested requestId questions =>
    simp only [foldEventIntoParts]
    split <;> simp
  | inputResolved requestId =>
    simpa [foldEventIntoParts, AgentEvent.deltas] using
      partsText_map (textOf_resolveInput requestId) out
  | error message => simp [pushError]
  | done status result error sessionId =>
    cases error <;>
      simp [pushError]
  | _ => simp

theorem mem_toolIds {parts : List MessagePart} :
    id ∈ toolIds parts ↔ ∃ part ∈ parts, part.toolId? = some id := by
  simp [toolIds]

theorem toolIds_refreshOrPush {refresh : MessagePart → Option MessagePart}
    (hrefresh : ∀ {old new}, refresh old = some new → Evolves old new)
    (hid : id ∈ toolIds (refreshOrPush refresh fresh out)) :
    id ∈ toolIds out ∨ fresh.toolId? = some id := by
  obtain ⟨part, hpart, htool⟩ := mem_toolIds.1 hid
  unfold refreshOrPush at hpart
  split at hpart
  · rcases Lists.mem_of_mem_lookmap hpart with hold | ⟨old, hold, hnew⟩
    · exact .inl (mem_toolIds.2 ⟨part, hold, htool⟩)
    · exact .inl (mem_toolIds.2 ⟨old, hold, (hrefresh hnew).toolId?.symm.trans htool⟩)
  · rcases mem_append.mp hpart with hold | hfresh
    · exact .inl (mem_toolIds.2 ⟨part, hold, htool⟩)
    · exact .inr (mem_singleton.mp hfresh ▸ htool)

theorem toolIds_append_singleton
    (hfresh : fresh.toolId? = none) : toolIds (out ++ [fresh]) = toolIds out := by
  simp [toolIds, hfresh]

theorem toolIds_foldEventIntoParts [LineDiff] {event : AgentEvent}
    (hid : id ∈ toolIds (foldEventIntoParts out event)) :
    id ∈ toolIds out ∨ ∃ call, event = .toolCall id call := by
  cases event with
  | sessionStarted | steered => simp [foldEventIntoParts, toolIds] at hid
  | textDelta text =>
    left
    simp only [foldEventIntoParts, pushText] at hid
    split at hid
    next partId tail hlast =>
      rw [toolIds_append_singleton rfl] at hid
      rw [← dropLast_append_getLast? _ hlast, toolIds_append_singleton rfl]
      exact hid
    · rwa [toolIds_append_singleton rfl] at hid
  | decision event =>
    rcases toolIds_refreshOrPush Evolves.refreshDecision hid with hold | hfresh
    · exact .inl hold
    · cases hfresh
  | toolCall callId call =>
    rcases toolIds_refreshOrPush Evolves.refreshCall hid with hold | hfresh
    · exact .inl hold
    · obtain rfl : callId = id := Option.some.inj hfresh
      exact .inr ⟨call, rfl⟩
  | toolResult resultId isError output diff =>
    left
    rwa [foldEventIntoParts,
      toolIds_map fun part => (Evolves.applyResult resultId isError diff part).toolId?] at hid
  | inputRequested requestId questions =>
    left
    simp only [foldEventIntoParts] at hid
    split at hid
    · exact hid
    · rwa [toolIds_append_singleton rfl] at hid
  | inputResolved requestId =>
    left
    rwa [foldEventIntoParts,
      toolIds_map fun part => (Evolves.resolveInput requestId part).toolId?] at hid
  | error message =>
    left
    rwa [foldEventIntoParts, pushError, toolIds_append_singleton rfl] at hid
  | done status result error sessionId =>
    left
    cases error with
    | none => exact hid
    | some message =>
      simp only [foldEventIntoParts, pushError] at hid
      rwa [toolIds_append_singleton rfl] at hid
  | _ => exact .inl hid

end Keel
