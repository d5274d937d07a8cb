import Keel.Foundation.Lists
import Keel.Doc.Parts

/-! # How folded parts grow

Between two boundary events the fold keeps every part at its index. A part keeps
its kind and its id; text only grows, tools and questions stay resolved once
they are, and decisions may be replaced.
-/

namespace Keel

open List Text Option

/-- How one part may change in place. -/
inductive Evolves : MessagePart → MessagePart → Prop
  | text {id old new : String} (hgrows : startsWith new old = true) :
      Evolves (.text id old) (.text id new)
  | tool {old new : ToolPart} (hid : new.id = old.id)
      (hresolved : old.resolved = true → new.resolved = true) :
      Evolves (.tool old) (.tool new)
  | input {id requestId : String} {questions : List UserInputQuestion} {old new : Bool}
      (hresolved : old = true → new = true) :
      Evolves (.input id requestId questions old) (.input id requestId questions new)
  | error (id message : String) : Evolves (.error id message) (.error id message)
  | decision (id : String) (old new : DecisionEvent) :
      Evolves (.decision id old) (.decision id new)

namespace Evolves

theorem refl (part : MessagePart) : Evolves part part := by
  cases part with
  | text id body =>
    have hself := startsWith_append body ""
    rw [String.append_empty] at hself
    exact .text hself
  | tool fields => exact .tool rfl id
  | input => exact .input id
  | error id message => exact .error id message
  | decision id event => exact .decision id event event

theorem trans {first second third : MessagePart} (hfirst : Evolves first second)
    (hsecond : Evolves second third) : Evolves first third := by
  cases hfirst with
  | text hgrows =>
    cases hsecond with
    | text hgrows' => exact .text (startsWith_trans hgrows' hgrows)
  | tool hid hresolved =>
    cases hsecond with
    | tool hid' hresolved' => exact .tool (hid'.trans hid) (hresolved' ∘ hresolved)
  | input hresolved =>
    cases hsecond with
    | input hresolved' => exact .input (hresolved' ∘ hresolved)
  | error => exact hsecond
  | decision id old new =>
    cases hsecond with
    | decision _ _ newest => exact .decision id old newest

theorem refreshCall {id : String} {call : ToolCall} {old new : MessagePart}
    (hnew : MessagePart.refreshCall id call old = some new) : Evolves old new := by
  cases old with
  | tool fields =>
    simp only [MessagePart.refreshCall, ite_none_right_eq_some, some.injEq] at hnew
    obtain ⟨-, rfl⟩ := hnew
    exact .tool rfl fun hresolved => hresolved
  | _ => cases hnew

theorem refreshDecision {id : String} {event : DecisionEvent} {old new : MessagePart}
    (hnew : MessagePart.refreshDecision id event old = some new) : Evolves old new := by
  cases old with
  | decision partId stored =>
    simp only [MessagePart.refreshDecision, ite_none_right_eq_some,
      some.injEq] at hnew
    obtain ⟨-, rfl⟩ := hnew
    exact .decision partId stored event
  | _ => cases hnew

theorem applyResult [LineDiff] (id : String) (isError : Bool) (diff : Option ToolDiff)
    (part : MessagePart) : Evolves part (part.applyResult id isError diff) := by
  cases part with
  | tool fields =>
    simp only [MessagePart.applyResult]
    split
    · exact .tool rfl fun _ => rfl
    · exact refl _
  | _ => exact refl _

theorem resolveInput (requestId : String) (part : MessagePart) :
    Evolves part (part.resolveInput requestId) := by
  cases part with
  | input id rid questions resolved =>
    simp only [MessagePart.resolveInput]
    split
    · exact .input fun _ => rfl
    · exact refl _
  | _ => exact refl _

end Evolves

/-- The folded parts of a segment at two moments of it. -/
abbrev PartsGrow : List MessagePart → List MessagePart → Prop := Lists.Grows Evolves

theorem PartsGrow.trans {first second third : List MessagePart} (hfirst : PartsGrow first second)
    (hsecond : PartsGrow second third) : PartsGrow first third :=
  Lists.Grows.trans (R := Evolves) Evolves.trans hfirst hsecond

theorem PartsGrow.refl (parts : List MessagePart) : PartsGrow parts parts :=
  Lists.Grows.refl Evolves.refl parts

/-- The two events at which the fold starts over. -/
def AgentEvent.clears : AgentEvent → Bool
  | .sessionStarted .. | .steered .. => true
  | _ => false

theorem pushText_grows (out : List MessagePart) (text : String) :
    PartsGrow out (pushText out text) := by
  unfold pushText
  split
  next id tail hlast =>
    have hsplit : out = out.dropLast ++ [.text id tail] :=
      (dropLast_append_getLast? _ hlast).symm
    nth_rewrite 1 [hsplit]
    exact .concat Evolves.refl _ (.text (startsWith_append tail text))
  · exact (PartsGrow.refl out).append _

theorem refreshOrPush_grows {refresh : MessagePart → Option MessagePart} (fresh : MessagePart)
    (hrefresh : ∀ {old new}, refresh old = some new → Evolves old new)
    (out : List MessagePart) : PartsGrow out (refreshOrPush refresh fresh out) := by
  unfold refreshOrPush
  split
  · exact .lookmap Evolves.refl hrefresh out
  · exact (PartsGrow.refl out).append _

/-- Between boundary events the fold only appends parts and evolves them in
place. -/
theorem foldEventIntoParts_grows [LineDiff] (out : List MessagePart) {event : AgentEvent}
    (hclears : event.clears = false) : PartsGrow out (foldEventIntoParts out event) := by
  have hsame := PartsGrow.refl out
  cases event with
  | sessionStarted | steered => cases hclears
  | textDelta text => exact pushText_grows out text
  | decision event => exact refreshOrPush_grows _ Evolves.refreshDecision out
  | toolCall id call => exact refreshOrPush_grows _ Evolves.refreshCall out
  | toolResult id isError output diff => exact .map_self (Evolves.applyResult id isError diff) out
  | inputRequested requestId questions =>
    simp only [foldEventIntoParts]
    split
    · exact hsame
    · exact hsame.append _
  | inputResolved requestId => exact .map_self (Evolves.resolveInput requestId) out
  | error message => exact hsame.append _
  | done status result error sessionId =>
    cases error with
    | some message => exact hsame.append _
    | none => exact hsame
  | _ => exact hsame

/-- The fold stores nothing of a tool's output beyond its statistics. -/
structure ToolPart.Bare (tool : ToolPart) : Prop where
  output : tool.output = none
  diff : tool.diff = none
  outputRef : tool.outputRef = none
  outputBytes : tool.outputBytes = none
  diffRef : tool.diffRef = none

def MessagePart.Bare : MessagePart → Prop
  | .tool fields => fields.Bare
  | _ => True

theorem bare_refreshCall {id : String} {call : ToolCall} {old new : MessagePart}
    (hnew : MessagePart.refreshCall id call old = some new) (hold : old.Bare) : new.Bare := by
  cases old with
  | tool fields =>
    simp only [MessagePart.refreshCall, ite_none_right_eq_some, some.injEq] at hnew
    obtain ⟨-, rfl⟩ := hnew
    exact ⟨hold.output, hold.diff, hold.outputRef, hold.outputBytes, hold.diffRef⟩
  | _ => cases hnew

theorem bare_refreshDecision {id : String} {event : DecisionEvent} {old new : MessagePart}
    (hnew : MessagePart.refreshDecision id event old = some new) : new.Bare := by
  cases Evolves.refreshDecision hnew with
  | decision => trivial
  | tool => cases hnew
  | _ => trivial

theorem bare_applyResult [LineDiff] (id : String) (isError : Bool) (diff : Option ToolDiff)
    {part : MessagePart} (hpart : part.Bare) : (part.applyResult id isError diff).Bare := by
  cases part with
  | tool fields =>
    simp only [MessagePart.applyResult]
    split
    · exact ⟨rfl, rfl, hpart.outputRef, rfl, hpart.diffRef⟩
    · exact hpart
  | _ => trivial

theorem bare_resolveInput (requestId : String) {part : MessagePart} (hpart : part.Bare) :
    (part.resolveInput requestId).Bare := by
  cases part with
  | input id rid questions resolved =>
    simp only [MessagePart.resolveInput]
    split <;> trivial
  | _ => exact hpart

theorem bare_refreshOrPush {refresh : MessagePart → Option MessagePart} {fresh : MessagePart}
    {out : List MessagePart} (hfresh : fresh.Bare)
    (hrefresh : ∀ {old new}, refresh old = some new → old.Bare → new.Bare)
    (hout : ∀ part ∈ out, part.Bare) : ∀ part ∈ refreshOrPush refresh fresh out, part.Bare := by
  intro part hpart
  unfold refreshOrPush at hpart
  split at hpart
  · rcases Lists.mem_of_mem_lookmap hpart with hold | ⟨old, hold, hnew⟩
    · exact hout part hold
    · exact hrefresh hnew (hout old hold)
  · rcases mem_append.mp hpart with hold | hnew
    · exact hout part hold
    · exact mem_singleton.mp hnew ▸ hfresh

theorem foldEventIntoParts_bare [LineDiff] {out : List MessagePart}
    (hout : ∀ part ∈ out, part.Bare) (event : AgentEvent) :
    ∀ part ∈ foldEventIntoParts out event, part.Bare := by
  have hpush : ∀ fresh : MessagePart, fresh.Bare → ∀ part ∈ out ++ [fresh], part.Bare := by
    intro fresh hfresh part hpart
    rcases mem_append.mp hpart with hold | hnew
    · exact hout part hold
    · exact mem_singleton.mp hnew ▸ hfresh
  cases event with
  | sessionStarted | steered => simp [foldEventIntoParts]
  | textDelta text =>
    intro part hpart
    simp only [foldEventIntoParts, pushText] at hpart
    split at hpart
    · rcases mem_append.mp hpart with hold | hnew
      · exact hout part (mem_of_mem_dropLast hold)
      · exact mem_singleton.mp hnew ▸ trivial
    · exact hpush (.text ("t" ++ toString out.length) text) trivial part hpart
  | decision event =>
    exact bare_refreshOrPush trivial (fun hnew _ => bare_refreshDecision hnew) hout
  | toolCall id call =>
    have hopened : MessagePart.Bare (.tool (.opened id call)) := ⟨rfl, rfl, rfl, rfl, rfl⟩
    exact bare_refreshOrPush hopened bare_refreshCall hout
  | toolResult id isError output diff =>
    intro part hpart
    obtain ⟨old, hold, rfl⟩ := mem_map.mp hpart
    exact bare_applyResult id isError diff (hout old hold)
  | inputRequested requestId questions =>
    simp only [foldEventIntoParts]
    split
    · exact hout
    · exact hpush (.input ("in-" ++ requestId) requestId questions false) trivial
  | inputResolved requestId =>
    intro part hpart
    obtain ⟨old, hold, rfl⟩ := mem_map.mp hpart
    exact bare_resolveInput requestId (hout old hold)
  | error message => exact hpush (.error ("e" ++ toString out.length) message) trivial
  | done status result error sessionId =>
    cases error with
    | some message => exact hpush (.error ("e" ++ toString out.length) message) trivial
    | none => exact hout
  | _ => exact hout

end Keel
