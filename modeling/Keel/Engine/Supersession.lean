import Keel.Engine.CommandDrain
import Keel.Foundation.Lists
import Mathlib.Data.Set.Finite.Lemmas

/-! # One drain pass and what it supersedes

A pass takes the pending commands one after the other, in their order, and marks each in the
ledger before it acts on it. What a command is evaluated against is fixed by its place: the
commands before it have been resolved, unless the ledger held them from the start, and the
commands behind it are as they were.
-/

namespace Keel.DrainPass

open List

/-- What a pass finds around the commands: the clock, the turns when a command is evaluated,
and what executing a command comes to. -/
structure Env where
  nowMs : Int
  currentTurnId : String → Option String
  turnIsPast : String → String → Bool
  applied : String → Bool
  resolution : String → Option String

/-- One evaluation: whether a newer command was found, and what was decided. -/
structure Evaluation where
  entry : SessionCommandEntry
  newer : Bool
  disposition : CommandDisposition

structure Pass where
  commands : List SessionCommandEntry
  isProcessed : String → Bool
  skipped : List String := []
  log : List Evaluation := []

section Code

variable (env : Env)

def Env.context (isProcessed : String → Bool) (commands : List SessionCommandEntry) (id : String) :
    EvaluationContext :=
  { isProcessed, nowMs := env.nowMs, entries := commands
    currentTurnId := env.currentTurnId id
    turnIsPast := env.turnIsPast id }

/-- The outcome write on the list: the first command with the id takes it. -/
def resolve (commands : List SessionCommandEntry) (id : String) (status : SessionCommandStatus)
    (resolution : Option String) : List SessionCommandEntry :=
  commands.lookmap fun entry =>
    if entry.id = id then some (SessionDoc.withOutcome status resolution entry) else none

/-- It is what the document's commands are after the host's write, also when that fails. -/
theorem resolveCommand_commands (doc : SessionDoc) (id : String) (status : SessionCommandStatus)
    (resolution : Option String) :
    (resolveCommand doc id status resolution).commands =
      resolve doc.commands id status resolution := by
  unfold resolveCommand SessionDoc.setCommandStatus
  split
  next written hwritten =>
    split at hwritten
    · exact (Except.ok.inj hwritten) ▸ rfl
    · cases hwritten
  next hfailed =>
    split at hfailed
    · cases hfailed
    next hnone =>
      refine (lookmap_of_forall_not _ fun entry hentry => ?_).symm
      rw [if_neg]
      rintro rfl
      exact hnone (any_eq_true.mpr ⟨entry, hentry, beq_self_eq_true entry.id⟩)

/-- One round of the loop of `drain_commands` on the selected command. -/
def act (pass : Pass) (entry : SessionCommandEntry) : Pass :=
  let disposition := evaluateCommand entry (env.context pass.isProcessed pass.commands entry.id)
  let marked : Pass := { pass with
    isProcessed := fun id => decide (id = entry.id) || pass.isProcessed id
    log := pass.log ++ [⟨entry, hasNewerSameKind pass.commands entry, disposition⟩] }
  match disposition with
  | .skip => { marked with skipped := entry.id :: pass.skipped }
  | .expired => { marked with commands := resolve pass.commands entry.id .expired none }
  | .superseded => { marked with commands := resolve pass.commands entry.id .superseded none }
  | .execute =>
    let status : SessionCommandStatus := if env.applied entry.id then .applied else .rejected
    { marked with commands := resolve pass.commands entry.id status (env.resolution entry.id) }

def drain : Nat → Pass → Pass
  | 0, pass => pass
  | fuel + 1, pass =>
    match selectCommand pass.commands pass.skipped pass.isProcessed with
    | none => pass
    | some entry => drain fuel (act env pass entry)

/-- A pass over some commands: every round claims a command of its own. -/
def run (isProcessed : String → Bool) (commands : List SessionCommandEntry) : Pass :=
  drain env commands.length { commands, isProcessed }

end Code

section Sweep

variable (env : Env) (isProcessed : String → Bool)

/-- The commands that no outcome of this pass is written to: those the ledger held, and those
that repeat an id. -/
def unresolved : List String → List SessionCommandEntry → List SessionCommandEntry
  | _, [] => []
  | seen, entry :: rest =>
    if entry.id ∈ seen ∨ isProcessed entry.id then
      entry :: unresolved (entry.id :: seen) rest
    else unresolved (entry.id :: seen) rest

/-- What a command is evaluated against, up to commands that are resolved. -/
def standing (before : List SessionCommandEntry) (entry : SessionCommandEntry)
    (after : List SessionCommandEntry) : List SessionCommandEntry :=
  unresolved isProcessed [] before ++ entry :: after

/-- The pass gets to this command: pending, not claimed, and the first pending one with its id. -/
def Due (before : List SessionCommandEntry) (entry : SessionCommandEntry) : Prop :=
  entry.status = .pending ∧ isProcessed entry.id = false ∧
    ∀ other ∈ before, other.id = entry.id → other.status ≠ .pending

instance (before : List SessionCommandEntry) (entry : SessionCommandEntry) :
    Decidable (Due isProcessed before entry) :=
  inferInstanceAs (Decidable (_ ∧ _ ∧ _))

def verdict (before : List SessionCommandEntry) (entry : SessionCommandEntry)
    (after : List SessionCommandEntry) : Evaluation :=
  let commands := standing isProcessed before entry after
  { entry
    newer := hasNewerSameKind commands entry
    disposition := evaluateCommand entry (env.context (fun _ => false) commands entry.id) }

/-- The evaluations of a pass, read off the list. -/
def sweep : List SessionCommandEntry → List SessionCommandEntry → List Evaluation
  | _, [] => []
  | before, entry :: after =>
    if Due isProcessed before entry then
      verdict env isProcessed before entry after :: sweep (before ++ [entry]) after
    else sweep (before ++ [entry]) after

end Sweep

section Unresolved

variable {isProcessed : String → Bool} {before : List SessionCommandEntry}
  {entry : SessionCommandEntry}

theorem unresolved_concat (seen : List String) :
    unresolved isProcessed seen (before ++ [entry]) = unresolved isProcessed seen before ++
      if entry.id ∈ seen ∨ entry.id ∈ before.map SessionCommandEntry.id ∨ isProcessed entry.id then
        [entry] else [] := by
  induction before generalizing seen with
  | nil => simp [unresolved]
  | cons head rest ih =>
    have hseen : (entry.id ∈ head.id :: seen ∨ entry.id ∈ rest.map SessionCommandEntry.id ∨
        isProcessed entry.id = true) ↔ (entry.id ∈ seen ∨
          entry.id ∈ (head :: rest).map SessionCommandEntry.id ∨ isProcessed entry.id = true) := by
      simp only [mem_cons, map_cons]
      tauto
    simp only [cons_append, unresolved, ih, hseen]
    split <;> rfl

theorem hasNewerSameKind_eq (entries : List SessionCommandEntry) :
    hasNewerSameKind entries entry =
      hasNewerSameKind (entries.filter fun other => other.status = .pending) entry := by
  simp only [hasNewerSameKind, any_filter]
  congr 1
  funext other
  cases hstatus : decide (other.status = .pending) <;> simp

theorem hasNewerSameKind_congr {entries others : List SessionCommandEntry}
    (hpending : entries.filter (fun other => other.status = .pending) =
      others.filter fun other => other.status = .pending) (after : List SessionCommandEntry) :
    hasNewerSameKind (entries ++ after) entry = hasNewerSameKind (others ++ after) entry := by
  rw [hasNewerSameKind_eq, filter_append, hpending, ← filter_append,
    ← hasNewerSameKind_eq]

theorem evaluateCommand_congr {first second : EvaluationContext}
    (hprocessed : first.isProcessed entry.id = second.isProcessed entry.id)
    (hnow : first.nowMs = second.nowMs)
    (hnewer : hasNewerSameKind first.entries entry = hasNewerSameKind second.entries entry)
    (hcurrent : first.currentTurnId = second.currentTurnId)
    (hpast : first.turnIsPast = second.turnIsPast) :
    evaluateCommand entry first = evaluateCommand entry second := by
  have hmoot : interruptIsMoot first entry = interruptIsMoot second entry := by
    rw [interruptIsMoot, interruptIsMoot, hcurrent, hpast]
  simp only [evaluateCommand, hprocessed, hnow, hnewer, hmoot]

theorem kind_of_interruptIsMoot {context : EvaluationContext}
    (hmoot : interruptIsMoot context entry = true) : entry.kind = .interrupt := by
  rw [interruptIsMoot] at hmoot
  split at hmoot
  next hkind _ => exact hkind
  · cases hmoot

theorem evaluateCommand_execute_iff {context : EvaluationContext}
    (hunclaimed : context.isProcessed entry.id = false) :
    evaluateCommand entry context = .execute ↔ context.nowMs < entry.effectiveExpiry ∧
      ¬ ((entry.kind = .steer ∨ entry.kind = .interrupt) ∧
        hasNewerSameKind context.entries entry = true) ∧
      interruptIsMoot context entry = false := by
  rw [evaluateCommand, hunclaimed, if_neg Bool.false_ne_true]
  split
  next hexpired => simp [hexpired]
  next hlive =>
    split
    next hnewer => simp [hnewer]
    next hlast =>
      split
      next hmoot => simp [hmoot]
      next hmoot => simp [Int.not_le.mp hlive, hlast, hmoot]

theorem evaluateCommand_superseded_iff {context : EvaluationContext}
    (hunclaimed : context.isProcessed entry.id = false) :
    evaluateCommand entry context = .superseded ↔ context.nowMs < entry.effectiveExpiry ∧
      (((entry.kind = .steer ∨ entry.kind = .interrupt) ∧
        hasNewerSameKind context.entries entry = true) ∨
      interruptIsMoot context entry = true) := by
  rw [evaluateCommand, hunclaimed, if_neg Bool.false_ne_true]
  split
  next hexpired => simp [hexpired]
  next hlive =>
    split
    next hnewer => simp [Int.not_le.mp hlive, hnewer]
    next hlast =>
      split
      next hmoot => simp [Int.not_le.mp hlive, hmoot]
      next hmoot => simp [hlast, hmoot]

theorem isProcessed_of_skip {context : EvaluationContext}
    (hskip : evaluateCommand entry context = .skip) : context.isProcessed entry.id = true := by
  by_contra hnot
  rw [evaluateCommand, if_neg hnot] at hskip
  split at hskip
  · cases hskip
  · split at hskip
    · cases hskip
    · split at hskip <;> cases hskip

end Unresolved

/-- The pass has gone past `before`: what is left of it pending is unresolved, and every
pending id of it is claimed. -/
structure Swept (isProcessed : String → Bool) (before rest : List SessionCommandEntry)
    (pass : Pass) : Prop where
  commands : ∃ done, pass.commands = done ++ rest ∧
    done.map SessionCommandEntry.id = before.map SessionCommandEntry.id ∧
    done.filter (fun entry => entry.status = .pending) =
      (unresolved isProcessed [] before).filter fun entry => entry.status = .pending
  processed : ∀ id, pass.isProcessed id = true ↔
    isProcessed id = true ∨ ∃ entry ∈ before, entry.status = .pending ∧ entry.id = id
  skipped : pass.skipped = []

namespace Swept

variable {env : Env} {isProcessed : String → Bool} {before after rest : List SessionCommandEntry}
  {entry : SessionCommandEntry} {pass : Pass}

theorem isProcessed_of_due (hswept : Swept isProcessed before rest pass)
    (hdue : Due isProcessed before entry) : pass.isProcessed entry.id = false := by
  rw [Bool.eq_false_iff, Ne, hswept.processed]
  rintro (hledger | ⟨other, hother, hpending, hid⟩)
  · rw [hdue.2.1] at hledger
    cases hledger
  · exact hdue.2.2 other hother hid hpending

theorem mem_unresolved {seen : List String} {other : SessionCommandEntry}
    (hother : other ∈ unresolved isProcessed seen before) : other ∈ before := by
  induction before generalizing seen with
  | nil => cases hother
  | cons head rest ih =>
    rw [unresolved] at hother
    split at hother
    · rcases mem_cons.mp hother with rfl | hrest
      · exact mem_cons_self
      · exact mem_cons_of_mem _ (ih hrest)
    · exact mem_cons_of_mem _ (ih hother)

theorem select_rest (hswept : Swept isProcessed before rest pass) :
    selectCommand pass.commands pass.skipped pass.isProcessed =
      selectCommand rest [] pass.isProcessed := by
  obtain ⟨done, hcommands, hids, hpending⟩ := hswept.commands
  rw [hcommands, hswept.skipped, selectCommand, find?_append, selectCommand]
  have hnone : done.find? (fun entry => decide (entry.status = .pending) &&
      !([] : List String).contains entry.id && !pass.isProcessed entry.id) = none := by
    rw [find?_eq_none]
    intro other hother
    by_cases hstatus : other.status = .pending
    · have hmem : other ∈ (unresolved isProcessed [] before).filter
          fun entry => entry.status = .pending := by
        rw [← hpending]
        exact mem_filter.mpr ⟨hother, decide_eq_true hstatus⟩
      have hclaimed := (hswept.processed other.id).mpr
        (.inr ⟨other, mem_unresolved (mem_filter.mp hmem).1, hstatus, rfl⟩)
      simp [hclaimed]
    · simp [hstatus]
  rw [hnone, Option.none_or]

section
variable (hswept : Swept isProcessed before (entry :: after) pass)
include hswept

theorem select_due (hdue : Due isProcessed before entry) :
    selectCommand pass.commands pass.skipped pass.isProcessed = some entry := by
  rw [hswept.select_rest, selectCommand]
  exact find?_cons_of_pos (by simp [hdue.1, hswept.isProcessed_of_due hdue])

theorem pass_over (hdue : ¬ Due isProcessed before entry) :
    Swept isProcessed (before ++ [entry]) after pass := by
  obtain ⟨done, hcommands, hids, hpending⟩ := hswept.commands
  have hclaimed : entry.status = .pending → isProcessed entry.id = true ∨
      ∃ other ∈ before, other.status = .pending ∧ other.id = entry.id := by
    intro hstatus
    by_contra hnot
    rw [not_or] at hnot
    refine hdue ⟨hstatus, Bool.eq_false_of_not_eq_true hnot.1, fun other hother hid hpending => ?_⟩
    exact hnot.2 ⟨other, hother, hpending, hid⟩
  refine
    { commands := ⟨done ++ [entry], by rw [hcommands, append_assoc, singleton_append],
        by rw [map_append, map_append, hids], ?_⟩
      processed := fun id => ?_
      skipped := hswept.skipped }
  · rw [unresolved_concat, filter_append, filter_append, hpending]
    congr 1
    by_cases hstatus : entry.status = .pending
    · rw [if_pos]
      rcases hclaimed hstatus with hledger | ⟨other, hother, -, hid⟩
      · exact .inr (.inr hledger)
      · exact .inr (.inl (hid ▸ mem_map_of_mem hother))
    · split <;> simp [hstatus]
  · rw [hswept.processed]
    constructor
    · rintro (hledger | ⟨other, hother, hrest⟩)
      · exact .inl hledger
      · exact .inr ⟨other, mem_append_left _ hother, hrest⟩
    · rintro (hledger | ⟨other, hother, hstatus, rfl⟩)
      · exact .inl hledger
      · rcases mem_append.mp hother with hbefore | hlast
        · exact .inr ⟨other, hbefore, hstatus, rfl⟩
        · obtain rfl := mem_singleton.mp hlast
          exact hclaimed hstatus

/-- The outcome of a due command: it is pending no longer, or repeats an id. -/
theorem resolve_due (hdue : Due isProcessed before entry) {status : SessionCommandStatus}
    (hstatus : status ≠ .pending) (resolution : Option String) :
    ∃ done, resolve pass.commands entry.id status resolution = done ++ after ∧
      done.map SessionCommandEntry.id = (before ++ [entry]).map SessionCommandEntry.id ∧
      done.filter (fun other => other.status = .pending) =
        (unresolved isProcessed [] (before ++ [entry])).filter fun other =>
          other.status = .pending := by
  obtain ⟨done, hcommands, hids, hpending⟩ := hswept.commands
  have hsettled : ∀ other ∈ done, other.id = entry.id → other.status ≠ .pending := by
    intro other hother hid hopen
    have hmem : other ∈ (unresolved isProcessed [] before).filter
        fun entry => entry.status = .pending := by
      rw [← hpending]
      exact mem_filter.mpr ⟨hother, decide_eq_true hopen⟩
    exact hdue.2.2 other (mem_unresolved (mem_filter.mp hmem).1) hid hopen
  have hrepeats : (done.any fun other => (if other.id = entry.id then
      some (SessionDoc.withOutcome status resolution other) else none).isSome) = true ↔
      entry.id ∈ before.map SessionCommandEntry.id := by
    rw [any_eq_true, ← hids]
    constructor
    · rintro ⟨other, hother, hsome⟩
      split at hsome
      next hid => exact hid ▸ mem_map_of_mem hother
      · cases hsome
    · intro hmem
      obtain ⟨other, hother, hid⟩ := mem_map.mp hmem
      exact ⟨other, hother, by rw [if_pos hid]; rfl⟩
  rw [resolve, hcommands, Lists.lookmap_append, unresolved_concat]
  split
  next hany =>
    refine ⟨done.lookmap _ ++ [entry], by rw [append_assoc, singleton_append], ?_, ?_⟩
    · rw [map_append, map_append, ← hids, lookmap_map_eq]
      intro other new hnew
      split at hnew
      · cases hnew
        rfl
      · cases hnew
    · rw [if_pos (.inr (.inl (hrepeats.mp hany))), filter_append, filter_append,
        ← hpending, Lists.filter_lookmap]
      intro other hother new hnew
      split at hnew
      next hid =>
        cases hnew
        exact ⟨decide_eq_false (hsettled other hother hid), decide_eq_false hstatus⟩
      · cases hnew
  next hany =>
    have hfirst : entry.id ∉ before.map SessionCommandEntry.id := fun hmem => hany (hrepeats.mpr hmem)
    rw [lookmap_cons, if_pos rfl, if_neg (by simp [hdue.2.1, hfirst]), append_nil]
    refine ⟨done ++ [SessionDoc.withOutcome status resolution entry],
      by rw [append_assoc, singleton_append], ?_, ?_⟩
    · rw [map_append, map_append, hids]
      rfl
    · rw [filter_append, hpending]
      simp [SessionDoc.withOutcome, hstatus]

end

theorem act (env : Env) (hswept : Swept isProcessed before (entry :: after) pass)
    (hdue : Due isProcessed before entry) :
    (act env pass entry).log = pass.log ++ [verdict env isProcessed before entry after] ∧
      Swept isProcessed (before ++ [entry]) after (act env pass entry) := by
  obtain ⟨done, hcommands, -, hpending⟩ := hswept.commands
  have hnewer : hasNewerSameKind pass.commands entry =
      hasNewerSameKind (standing isProcessed before entry after) entry := by
    rw [hcommands, standing]
    exact hasNewerSameKind_congr hpending (entry :: after)
  have hunclaimed := hswept.isProcessed_of_due hdue
  have hverdict : evaluateCommand entry
      (env.context pass.isProcessed pass.commands entry.id) =
      (verdict env isProcessed before entry after).disposition := by
    simp only [verdict]
    apply evaluateCommand_congr
    · exact hunclaimed
    · rfl
    · exact hnewer
    · rfl
    · rfl
  have hprocessed : ∀ id, (decide (id = entry.id) || pass.isProcessed id) = true ↔
      isProcessed id = true ∨ ∃ other ∈ before ++ [entry], other.status = .pending ∧
        other.id = id := by
    intro id
    rw [Bool.or_eq_true, hswept.processed, decide_eq_true_iff]
    constructor
    · rintro (rfl | hledger | ⟨other, hother, hrest⟩)
      · exact .inr ⟨entry, mem_append_right _ mem_cons_self, hdue.1, rfl⟩
      · exact .inl hledger
      · exact .inr ⟨other, mem_append_left _ hother, hrest⟩
    · rintro (hledger | ⟨other, hother, hstatus, rfl⟩)
      · exact .inr (.inl hledger)
      · rcases mem_append.mp hother with hbefore | hlast
        · exact .inr (.inr ⟨other, hbefore, hstatus, rfl⟩)
        · obtain rfl := mem_singleton.mp hlast
          exact .inl rfl
  have hlog : (⟨entry, hasNewerSameKind pass.commands entry, evaluateCommand entry
      (env.context pass.isProcessed pass.commands entry.id)⟩ : Evaluation) =
      verdict env isProcessed before entry after := by
    rw [hverdict, hnewer]
    rfl
  simp only [DrainPass.act, hlog]
  split
  next hskip =>
    have hclaimed : pass.isProcessed entry.id = true := isProcessed_of_skip hskip
    rw [hunclaimed] at hclaimed
    cases hclaimed
  · exact ⟨rfl, hswept.resolve_due hdue (by decide) _, hprocessed, hswept.skipped⟩
  · exact ⟨rfl, hswept.resolve_due hdue (by decide) _, hprocessed, hswept.skipped⟩
  · refine ⟨rfl, hswept.resolve_due hdue ?_ _, hprocessed, hswept.skipped⟩
    split <;> decide

end Swept

section Run

variable {env : Env} {isProcessed : String → Bool}

/-- The rounds of a pass are the sweep over its commands, and leave nothing to select. -/
theorem drain_spec {before rest : List SessionCommandEntry} {pass : Pass} {fuel : Nat}
    (hfuel : rest.length ≤ fuel) (hswept : Swept isProcessed before rest pass) :
    (drain env fuel pass).log = pass.log ++ sweep env isProcessed before rest ∧
      selectCommand (drain env fuel pass).commands (drain env fuel pass).skipped
        (drain env fuel pass).isProcessed = none := by
  induction rest generalizing before pass fuel with
  | nil =>
    have hnone := hswept.select_rest
    cases fuel with
    | zero => exact ⟨(append_nil _).symm, hnone⟩
    | succ fuel =>
      rw [drain, hnone]
      exact ⟨(append_nil _).symm, hnone⟩
  | cons entry after ih =>
    by_cases hdue : Due isProcessed before entry
    · obtain ⟨fuel, rfl⟩ : ∃ less, fuel = less + 1 := ⟨fuel - 1, by
        rw [length_cons] at hfuel
        omega⟩
      obtain ⟨hlog, hnext⟩ := hswept.act env hdue
      obtain ⟨hrest, hnone⟩ := ih (Nat.le_of_succ_le_succ hfuel) hnext
      simp only [drain, hswept.select_due hdue]
      refine ⟨?_, hnone⟩
      rw [hrest, hlog, sweep, if_pos hdue, append_assoc, singleton_append]
    · rw [sweep, if_neg hdue]
      exact ih (Nat.le_of_succ_le hfuel) (hswept.pass_over hdue)

theorem run_spec (commands : List SessionCommandEntry) :
    (run env isProcessed commands).log = sweep env isProcessed [] commands ∧
      selectCommand (run env isProcessed commands).commands (run env isProcessed commands).skipped
        (run env isProcessed commands).isProcessed = none := by
  have hstart : Swept isProcessed [] commands { commands, isProcessed } :=
    { commands := ⟨[], rfl, rfl, rfl⟩
      processed := by simp
      skipped := rfl }
  exact drain_spec (Nat.le_refl _) hstart

theorem mem_sweep {before rest : List SessionCommandEntry} {evaluation : Evaluation} :
    evaluation ∈ sweep env isProcessed before rest ↔ ∃ middle entry after,
      rest = middle ++ entry :: after ∧ Due isProcessed (before ++ middle) entry ∧
        evaluation = verdict env isProcessed (before ++ middle) entry after := by
  induction rest generalizing before with
  | nil => simp [sweep]
  | cons head tail ih =>
    have htail : (∃ middle entry after, tail = middle ++ entry :: after ∧
        Due isProcessed (before ++ [head] ++ middle) entry ∧
        evaluation = verdict env isProcessed (before ++ [head] ++ middle) entry after) ↔
        ∃ middle entry after, head :: tail = (head :: middle) ++ entry :: after ∧
          Due isProcessed (before ++ head :: middle) entry ∧
          evaluation = verdict env isProcessed (before ++ head :: middle) entry after := by
      simp only [append_assoc, cons_append, nil_append, List.cons.injEq, true_and]
    have hsplit : (∃ middle entry after, head :: tail = middle ++ entry :: after ∧
        Due isProcessed (before ++ middle) entry ∧
        evaluation = verdict env isProcessed (before ++ middle) entry after) ↔
        (Due isProcessed before head ∧
          evaluation = verdict env isProcessed before head tail) ∨
        ∃ middle entry after, head :: tail = (head :: middle) ++ entry :: after ∧
          Due isProcessed (before ++ head :: middle) entry ∧
          evaluation = verdict env isProcessed (before ++ head :: middle) entry after := by
      constructor
      · rintro ⟨middle, entry, after, hrest, hdue, heq⟩
        cases middle with
        | nil =>
          obtain ⟨rfl, rfl⟩ := List.cons.inj hrest
          rw [append_nil] at hdue heq
          exact .inl ⟨hdue, heq⟩
        | cons first middle =>
          obtain ⟨rfl, -⟩ := List.cons.inj hrest
          exact .inr ⟨middle, entry, after, hrest, hdue, heq⟩
      · rintro (⟨hdue, heq⟩ | ⟨middle, entry, after, hrest, hdue, heq⟩)
        · exact ⟨[], head, tail, rfl, by rwa [append_nil], by rwa [append_nil]⟩
        · exact ⟨head :: middle, entry, after, hrest, hdue, heq⟩
    rw [hsplit, ← htail, ← ih, sweep]
    split
    next hdue => simp [hdue]
    next hdue => simp [hdue]

end Run

section Claim

variable (env : Env) (isProcessed : String → Bool) (commands : List SessionCommandEntry)

/-- A command that can still take effect when the pass starts. -/
def Live (entry : SessionCommandEntry) : Prop :=
  entry.status = .pending ∧ isProcessed entry.id = false ∧ env.nowMs < entry.effectiveExpiry

/-- The kinds of which the last one counts, an interrupt when it is not tied to a turn. -/
def Unconditional (entry : SessionCommandEntry) : Prop :=
  entry.kind = .steer ∨ (entry.kind = .interrupt ∧ entry.basedOn = none)

/-- Supersession loses nothing: of a kind with a live command some command runs, and a command
marked superseded because of a newer one has a newer one of its kind that runs. -/
def LosesNothing : Prop :=
  (∀ entry ∈ commands, Live env isProcessed entry → Unconditional entry →
    ∃ evaluation ∈ (run env isProcessed commands).log,
      evaluation.disposition = .execute ∧ evaluation.entry.kind = entry.kind) ∧
  ∀ marked ∈ (run env isProcessed commands).log,
    marked.disposition = .superseded → marked.newer = true →
      ∃ evaluation ∈ (run env isProcessed commands).log, evaluation.disposition = .execute ∧
        evaluation.entry.kind = marked.entry.kind ∧
        marked.entry.issuedAt < evaluation.entry.issuedAt

/-- A due command that is not expired, and not based on a turn that is over. -/
def Runnable (entry : SessionCommandEntry) : Prop :=
  ∃ before after, commands = before ++ entry :: after ∧ Due isProcessed before entry ∧
    env.nowMs < entry.effectiveExpiry ∧
    interruptIsMoot (env.context isProcessed commands entry.id) entry = false

/-- Where a live command is seen to have a newer one, a newer one of its kind is runnable, and
of a kind with a live command some command is. -/
def NewestRunnable : Prop :=
  (∀ before entry after, commands = before ++ entry :: after → Due isProcessed before entry →
    env.nowMs < entry.effectiveExpiry → entry.kind = .steer ∨ entry.kind = .interrupt →
    hasNewerSameKind (standing isProcessed before entry after) entry = true →
      ∃ other, Runnable env isProcessed commands other ∧ other.kind = entry.kind ∧
        entry.issuedAt < other.issuedAt) ∧
  ∀ entry ∈ commands, Live env isProcessed entry → Unconditional entry →
    ∃ other, Runnable env isProcessed commands other ∧ other.kind = entry.kind

variable {env isProcessed commands}

theorem mem_log {evaluation : Evaluation} :
    evaluation ∈ (run env isProcessed commands).log ↔ ∃ before entry after,
      commands = before ++ entry :: after ∧ Due isProcessed before entry ∧
        evaluation = verdict env isProcessed before entry after := by
  rw [(run_spec commands).1, mem_sweep]
  simp only [nil_append]

section Verdict

variable (commands) {before after : List SessionCommandEntry} {entry : SessionCommandEntry}

theorem verdict_superseded_iff :
    (verdict env isProcessed before entry after).disposition = .superseded ↔
      env.nowMs < entry.effectiveExpiry ∧
      (((entry.kind = .steer ∨ entry.kind = .interrupt) ∧
        hasNewerSameKind (standing isProcessed before entry after) entry = true) ∨
      interruptIsMoot (env.context isProcessed commands entry.id) entry = true) := by
  have hunclaimed : (env.context (fun _ => false) (standing isProcessed before entry after)
      entry.id).isProcessed entry.id = false := rfl
  exact evaluateCommand_superseded_iff hunclaimed

theorem verdict_execute_iff :
    (verdict env isProcessed before entry after).disposition = .execute ↔
      env.nowMs < entry.effectiveExpiry ∧
      ¬ ((entry.kind = .steer ∨ entry.kind = .interrupt) ∧
        hasNewerSameKind (standing isProcessed before entry after) entry = true) ∧
      interruptIsMoot (env.context isProcessed commands entry.id) entry = false := by
  have hunclaimed : (env.context (fun _ => false) (standing isProcessed before entry after)
      entry.id).isProcessed entry.id = false := rfl
  exact evaluateCommand_execute_iff hunclaimed

end Verdict

theorem runnable_of_execute {evaluation : Evaluation}
    (hmem : evaluation ∈ (run env isProcessed commands).log)
    (hexecute : evaluation.disposition = .execute) :
    Runnable env isProcessed commands evaluation.entry := by
  obtain ⟨before, entry, after, hcommands, hdue, rfl⟩ := mem_log.1 hmem
  obtain ⟨hlive, -, hmoot⟩ := (verdict_execute_iff commands).mp hexecute
  exact ⟨before, after, hcommands, hdue, hlive, hmoot⟩

theorem finite_runnable (kind : SessionCommandKind) :
    {entry | Runnable env isProcessed commands entry ∧ entry.kind = kind}.Finite := by
  refine commands.finite_toSet.subset ?_
  rintro entry ⟨⟨before, after, hcommands, -⟩, -⟩
  rw [Set.mem_ofPred_eq, hcommands]
  exact mem_append_right _ mem_cons_self

theorem exists_execute (hnewest : NewestRunnable env isProcessed commands)
    {runnable : SessionCommandEntry} (hrunnable : Runnable env isProcessed commands runnable) :
    ∃ evaluation ∈ (run env isProcessed commands).log, evaluation.disposition = .execute ∧
      evaluation.entry.kind = runnable.kind ∧ runnable.issuedAt ≤ evaluation.entry.issuedAt := by
  obtain ⟨last, ⟨hlast, hkind⟩, hmax⟩ :=
    Set.exists_max_image _ SessionCommandEntry.issuedAt (finite_runnable runnable.kind)
      ⟨runnable, hrunnable, rfl⟩
  have hlast' := hlast
  obtain ⟨before, after, hcommands, hdue, hlive, hmoot⟩ := hlast
  refine ⟨_, mem_log.2 ⟨before, last, after, hcommands, hdue, rfl⟩, ?_, hkind,
    hmax runnable ⟨hrunnable, rfl⟩⟩
  refine (verdict_execute_iff commands).mpr ⟨hlive, ?_, hmoot⟩
  -- a newer command would leave a runnable one that was issued later still
  rintro ⟨hcounts, hnewer⟩
  obtain ⟨other, hother, hsame, hlater⟩ :=
    hnewest.1 before last after hcommands hdue hlive hcounts hnewer
  have hle := hmax other ⟨hother, hsame.trans hkind⟩
  omega

/-- Supersession loses nothing exactly when a newer command is there to be run. -/
theorem losesNothing_iff_newestRunnable :
    LosesNothing env isProcessed commands ↔ NewestRunnable env isProcessed commands := by
  constructor
  · rintro ⟨hlive, hmarked⟩
    refine ⟨fun before entry after hcommands hdue hexpiry hkind hnewer => ?_, fun entry hentry hopen
      huncond => ?_⟩
    · have hdisposition : (verdict env isProcessed before entry after).disposition = .superseded :=
        (verdict_superseded_iff commands).mpr ⟨hexpiry, .inl ⟨hkind, hnewer⟩⟩
      obtain ⟨evaluation, hmem, hexecute, hsame, hlater⟩ := hmarked _
        (mem_log.2 ⟨before, entry, after, hcommands, hdue, rfl⟩) hdisposition hnewer
      exact ⟨evaluation.entry, runnable_of_execute hmem hexecute, hsame, hlater⟩
    · obtain ⟨evaluation, hmem, hexecute, hsame⟩ := hlive entry hentry hopen huncond
      exact ⟨evaluation.entry, runnable_of_execute hmem hexecute, hsame⟩
  · intro hnewest
    refine ⟨fun entry hentry hopen huncond => ?_, fun marked hmarked hdisposition hnewer => ?_⟩
    · obtain ⟨other, hother, hsame⟩ := hnewest.2 entry hentry hopen huncond
      obtain ⟨evaluation, hmem, hexecute, hkind, -⟩ := exists_execute hnewest hother
      exact ⟨evaluation, hmem, hexecute, hkind.trans hsame⟩
    · obtain ⟨before, entry, after, hcommands, hdue, rfl⟩ := mem_log.1 hmarked
      obtain ⟨hexpiry, hreason⟩ := (verdict_superseded_iff commands).mp hdisposition
      have hkind : entry.kind = .steer ∨ entry.kind = .interrupt := by
        rcases hreason with ⟨hkind, -⟩ | hmoot
        · exact hkind
        · exact .inr (kind_of_interruptIsMoot hmoot)
      obtain ⟨other, hother, hsame, hlater⟩ :=
        hnewest.1 before entry after hcommands hdue hexpiry hkind hnewer
      obtain ⟨evaluation, hmem, hexecute, hexecuted, hlast⟩ := exists_execute hnewest hother
      exact ⟨evaluation, hmem, hexecute, hexecuted.trans hsame, Int.lt_of_lt_of_le hlater hlast⟩

def steerEntry (id : String) (issuedAt : Int) (expiresAt : Option Int) : SessionCommandEntry :=
  { id, issuedAt, expiresAt
    payload := .steer "go" none
    issuedBy := "device-a"
    basedOn := none
    status := .pending
    resolution := none }

/-- A live steer is superseded by a newer one that has expired, and neither runs. -/
theorem live_steer_lost : ¬ ∀ (env : Env) (isProcessed : String → Bool)
    (commands : List SessionCommandEntry), LosesNothing env isProcessed commands := by
  intro hall
  have hlost := (hall ⟨3000, fun _ => none, fun _ _ => false, fun _ => true, fun _ => none⟩
    (fun _ => false) [steerEntry "a" 1000 none, steerEntry "b" 2000 (some 2500)]).1
    (steerEntry "a" 1000 none) (by decide) ⟨rfl, rfl, by decide⟩ (.inl rfl)
  obtain ⟨evaluation, hmem, hexecute, -⟩ := hlost
  revert evaluation
  decide

end Claim

end Keel.DrainPass
