import Keel.Rpc.RequestView

/-! # Transparency

A call resolves with what its handler returned, and a subscription yields what its
handler yielded. For one request this is a matter of prefixes: what the caller has seen,
what is on its way and what the task is about to send make up the frames of the task.
Null is the exception, since a null value is read as no value.
-/

namespace Keel

open List Function

namespace Rpc

/-! ## The frames of a task -/

/-- How a call ends with a frame; an item ends nothing. -/
def ServerFrame.outcome (frame : ServerFrame) : Option Outcome :=
  match frame.err with
  | some err => some (.error (.failed err))
  | none =>
    match frame.ok with
    | some value => some (.ok value)
    | none =>
      match frame.item with
      | some _ => none
      | none => if frame.done then some (.error .closed) else none

namespace Task

/-- The frames that a task makes of what its handler has returned so far. -/
def frames (id : Nat) (task : Task) : List ServerFrame :=
  match task.reply with
  | none => []
  | some (.value value) => [{ id, ok := some value }]
  | some (.error error) => [{ id, err := some error.text }]
  | some .stream =>
    task.items.map (fun item => { id, item := some item }) ++
      if task.ended then [{ id, done := true }] else []

def unsent (task : Task) : List ServerFrame :=
  match task.phase with
  | .sending frame _ => [frame]
  | _ => []

/-- The handler has returned, and its stream has ended. -/
def Complete (task : Task) : Prop :=
  ∃ reply, task.reply = some reply ∧ (reply = .stream → task.ended = true)

/-- What has happened to a task by each of its phases. -/
def Coherent (task : Task) : Phase → Prop
  | .handling => task.reply = none ∧ task.items = [] ∧ task.ended = false
  | .streaming => task.reply = some .stream ∧ task.ended = false
  | .sending frame last => frame.received = frame ∧
      if last then task.Complete else task.reply = some .stream ∧ task.ended = false
  | .finished => task.Complete

theorem mem_frames {id : Nat} {task : Task} {frame : ServerFrame} (hframe : frame ∈ task.frames id) :
    (∃ item, frame = { id, item := some item }) ∨
      ((∃ outcome, frame.outcome = some outcome) ∧ frame.item = none) := by
  rw [frames] at hframe
  split at hframe
  · cases hframe
  next value _ =>
    rw [mem_singleton] at hframe
    subst hframe
    exact Or.inr ⟨⟨_, rfl⟩, rfl⟩
  next error _ =>
    rw [mem_singleton] at hframe
    subst hframe
    exact Or.inr ⟨⟨_, rfl⟩, rfl⟩
  · rw [mem_append, mem_map] at hframe
    rcases hframe with ⟨item, -, rfl⟩ | hdone
    · exact Or.inl ⟨item, rfl⟩
    · split at hdone
      · rw [mem_singleton] at hdone
        subst hdone
        exact Or.inr ⟨⟨_, rfl⟩, rfl⟩
      · cases hdone

theorem outcomes_before {id : Nat} {task : Task} {seen rest : List ServerFrame} {frame : ServerFrame}
    (hframes : task.frames id = seen ++ frame :: rest) :
    seen.filterMap ServerFrame.outcome = [] := by
  rw [frames] at hframes
  split at hframes
  · cases seen <;> cases hframes
  · obtain ⟨rfl, -⟩ := (append_eq_singleton_iff.mp hframes.symm).resolve_right (by simp)
    rfl
  · obtain ⟨rfl, -⟩ := (append_eq_singleton_iff.mp hframes.symm).resolve_right (by simp)
    rfl
  · have hitems : seen <+: task.items.map fun item => ({ id, item := some item } : ServerFrame) := by
      refine prefix_of_prefix_length_le (prefix_append seen (frame :: rest))
        (hframes ▸ prefix_append _ _) ?_
      have hlength := congrArg List.length hframes
      simp only [length_append, length_cons] at hlength
      split at hlength <;> simp only [length_singleton, length_nil] at hlength <;> omega
    rw [filterMap_eq_nil_iff]
    intro seen hseen
    obtain ⟨item, -, rfl⟩ := mem_map.mp (hitems.subset hseen)
    rfl

theorem received_eq {frame : ServerFrame} (hok : frame.ok ≠ some .null)
    (hitem : frame.item ≠ some .null) : frame.received = frame := by
  have hfilter : ∀ value : Option Json, value ≠ some .null → value.filter (· ≠ .null) = value := by
    intro value hvalue
    cases value with
    | none => rfl
    | some value => exact Option.filter_some_pos (by simpa using hvalue)
  rw [ServerFrame.received, hfilter _ hok, hfilter _ hitem]

/-- A handler moves, and the frame that waits now comes after those before. -/
theorem Moves.spec {id : Nat} {task task' : Task} (hmoves : task.Moves id task')
    (hcoherent : task.Coherent task.phase) :
    task'.Coherent task'.phase ∧ task.unsent = [] ∧
      task'.frames id = task.frames id ++ task'.unsent ∧
      task'.method = task.method ∧ task'.params = task.params := by
  cases hmoves with
  | reply reply hphase hplain =>
    rw [hphase] at hcoherent
    obtain ⟨hnone, hitems, hended⟩ := hcoherent
    have hbefore : task.frames id = [] := by rw [frames, hnone]
    refine ⟨?_, by rw [unsent, hphase], ?_, rfl, rfl⟩
    · cases reply with
      | value value =>
        have hvalue : value ≠ .null := fun heq => hplain (congrArg Reply.value heq)
        exact ⟨received_eq (by simpa using hvalue) (by simp), .value value, rfl, by simp⟩
      | stream => exact ⟨rfl, hended⟩
      | error error => exact ⟨received_eq (by simp) (by simp), .error error, rfl, by simp⟩
    · rw [hbefore]
      cases reply with
      | value value => rfl
      | stream => simp [frames, unsent, replied, hitems, hended]
      | error error => rfl
  | yield item hphase hplain =>
    rw [hphase] at hcoherent
    obtain ⟨hreply, hended⟩ := hcoherent
    refine ⟨⟨received_eq (by simp) (by simpa using hplain), hreply, hended⟩,
      by rw [unsent, hphase], ?_, rfl, rfl⟩
    simp [frames, unsent, hreply, hended]
  | endStream hphase =>
    rw [hphase] at hcoherent
    obtain ⟨hreply, hended⟩ := hcoherent
    refine ⟨⟨received_eq (by simp) (by simp), .stream, hreply, fun _ => rfl⟩,
      by rw [unsent, hphase], ?_, rfl, rfl⟩
    simp [frames, unsent, hreply, hended]

theorem Moves.frame_id {id : Nat} {task task' : Task} {frame : ServerFrame} {last : Bool}
    (hmoves : task.Moves id task') (hphase : task'.phase = .sending frame last) : frame.id = id := by
  cases hmoves with
  | reply reply =>
    cases reply with
    | value value => cases hphase; rfl
    | stream => cases hphase
    | error error => cases hphase; rfl
  | yield item | endStream => cases hphase; rfl

end Task

/-! ## One request -/

namespace View

def Kept (view : View) : Prop :=
  ∀ receiver, view.receiver = some receiver → receiver.dropped = false

/-- What the caller has after some frames. -/
structure CallerAt (view : View) (request : Request) (seen : List ServerFrame) : Prop where
  pending : view.pending =
    if seen.filterMap ServerFrame.outcome = [] then some request.kind else none
  outcomes : request.kind = .call → view.outcomes = seen.filterMap ServerFrame.outcome
  items : request.kind = .stream → ∃ receiver, view.receiver = some receiver ∧
    receiver.taken ++ receiver.queue = seen.filterMap ServerFrame.item

/-- How far a request has come: its frame is on the way, or its task has it. -/
inductive Progress (id : Nat) (request : Request) (view : View) : Prop
  | waiting (htask : view.task = none) (hinbound : view.inbound = [])
      (hframe : view.sending.toList ++ view.outbound = [request.frame id])
      (hcaller : view.CallerAt request [])
  | served (task : Task) (seen : List ServerFrame) (htask : view.task = some task)
      (hframe : view.sending.toList ++ view.outbound = [])
      (hmethod : task.method = request.method) (hparams : task.params = request.params)
      (hcoherent : task.Coherent task.phase)
      (hframes : seen ++ (view.inbound ++ task.unsent) = task.frames id)
      (hcaller : view.CallerAt request seen)

/-- The invariant of one request. -/
structure Inv (id : Nat) (view : View) : Prop where
  fresh : view.request = none → view = {}
  kind : ∀ kind, view.pending = some kind →
    ∃ request, view.request = some request ∧ request.kind = kind
  receiver : ∀ request, view.request = some request →
    (request.kind = .stream ↔ view.receiver ≠ none)
  outcomes : ∀ request, view.request = some request → request.kind = .stream → view.outcomes = []
  cancelling : view.Kept → view.cancelling = false
  sending : ∀ frame, view.sending = some frame → frame.id = id
  task : ∀ task frame last, view.task = some task → task.phase = .sending frame last → frame.id = id
  progress : ∀ request, view.request = some request → view.Kept → view.Progress id request

theorem Inv.new (id : Nat) : Inv id {} where
  fresh _ := rfl
  kind _ h := by cases h
  receiver _ h := by cases h
  outcomes _ h := by cases h
  cancelling _ := rfl
  sending _ h := by cases h
  task _ _ _ h := by cases h
  progress _ h := by cases h

section Route

variable {view : View} {request : Request} {seen rest : List ServerFrame} {frame : ServerFrame}

/-- A frame that is routed without waiting ends the request, or nothing happens. -/
theorem route_eq (view : View) (frame : ServerFrame) :
    view.route frame = match frame.outcome with
      | some outcome => view.settle outcome
      | none => view := by
  rw [route, ServerFrame.outcome]
  cases frame.err with
  | some err => rfl
  | none =>
    cases frame.ok with
    | some value => rfl
    | none =>
      cases frame.item with
      | some item => rfl
      | none =>
        cases frame.done <;> rfl

@[simp] theorem route_request (view : View) (frame : ServerFrame) :
    (view.route frame).request = view.request := by
  rw [route_eq]
  split <;> rfl

@[simp] theorem route_receiver (view : View) (frame : ServerFrame) :
    (view.route frame).receiver = view.receiver := by
  rw [route_eq]
  split <;> rfl

theorem route_rest (view : View) (frame : ServerFrame) :
    (view.route frame).sending = view.sending ∧ (view.route frame).outbound = view.outbound ∧
      (view.route frame).cancelling = view.cancelling ∧ (view.route frame).task = view.task ∧
      (view.route frame).inbound = view.inbound := by
  rw [route_eq]
  split <;> exact ⟨rfl, rfl, rfl, rfl, rfl⟩

@[simp] theorem serve_receiver (view : View) (frame : ClientFrame) :
    (view.serve frame).receiver = view.receiver := by
  rw [serve]
  split <;> rfl

@[simp] theorem serve_request (view : View) (frame : ClientFrame) :
    (view.serve frame).request = view.request := by
  rw [serve]
  split <;> rfl

theorem CallerAt.route {view : View} {request : Request} {task : Task} {id : Nat}
    {seen rest : List ServerFrame} {frame : ServerFrame}
    (hcaller : view.CallerAt request seen) (hframes : task.frames id = seen ++ frame :: rest)
    (hplain : frame.err.isSome ∨ frame.ok.isSome ∨ frame.item = none ∨
      view.pending ≠ some .stream) :
    (view.route frame).CallerAt request (seen ++ [frame]) := by
  have hbefore := Task.outcomes_before hframes
  have hpending : view.pending = some request.kind := by rw [hcaller.pending, if_pos hbefore]
  have hmem : frame ∈ task.frames id := hframes ▸ mem_append_right _ mem_cons_self
  rw [route_eq]
  rcases Task.mem_frames hmem with ⟨item, rfl⟩ | ⟨⟨outcome, houtcome⟩, hitem⟩
  · -- an item that nobody waits for
    have hkind : request.kind ≠ .stream := by
      intro hkind
      simp [hpending, hkind] at hplain
    have hnone : ServerFrame.outcome { id, item := some item } = none := rfl
    rw [hnone]
    refine ⟨?_, fun hcall => ?_, fun hstream => absurd hstream hkind⟩
    · rw [filterMap_append, hbefore]
      exact hpending
    · rw [hcaller.outcomes hcall, filterMap_append]
      exact (append_nil _).symm
  · rw [houtcome]
    refine ⟨?_, fun hcall => ?_, fun hstream => ?_⟩
    · rw [filterMap_append, hbefore, filterMap_cons, houtcome]
      rfl
    · rw [filterMap_append, filterMap_cons, houtcome, ← hcaller.outcomes hcall]
      exact if_pos (hpending.trans (congrArg some hcall))
    · obtain ⟨receiver, hreceiver, hitems⟩ := hcaller.items hstream
      refine ⟨receiver, hreceiver, ?_⟩
      rw [hitems, filterMap_append, filterMap_cons, hitem]
      exact (append_nil _).symm

theorem CallerAt.deliver {view : View} {request : Request} {id : Nat} {seen : List ServerFrame}
    {receiver : Receiver} {item : Json} (inbound : List ServerFrame)
    (hcaller : view.CallerAt request seen) (hreceiver : view.receiver = some receiver) :
    ({ view with
        inbound, receiver := some { receiver with queue := receiver.queue ++ [item] } } :
      View).CallerAt request (seen ++ [{ id, item := some item }]) := by
  have hsame : (seen ++ [({ id, item := some item } : ServerFrame)]).filterMap
      ServerFrame.outcome = seen.filterMap ServerFrame.outcome := by
    rw [filterMap_append]
    exact append_nil _
  refine ⟨?_, fun hcall => ?_, fun hstream => ?_⟩
  · rw [hsame]
    exact hcaller.pending
  · rw [hsame]
    exact hcaller.outcomes hcall
  · obtain ⟨held, hheld, hitems⟩ := hcaller.items hstream
    obtain rfl := Option.mem_unique hheld hreceiver
    refine ⟨_, rfl, ?_⟩
    rw [filterMap_append, ← hitems, append_assoc]
    rfl

end Route

section Steps

variable {id : Nat} {request : Request} {view view' : View}

theorem Step.requested (hinv : Inv id view) (hstep : Step id view view') :
    view'.request ≠ none := by
  intro hnone
  have hview : view.request = none → view = {} := hinv.fresh
  cases hstep with
  | issue request => cases hnone
  | send frame hsending => rw [hview hnone] at hsending; cases hsending
  | serve frame rest houtbound =>
    rw [serve_request] at hnone
    rw [hview hnone] at houtbound
    cases houtbound
  | cancel frame rest task houtbound => rw [hview hnone] at houtbound; cases houtbound
  | task task task' htask | sendFrame task frame last htask =>
    rw [hview hnone] at htask; cases htask
  | route frame rest hinbound =>
    rw [route_request] at hnone
    rw [hview hnone] at hinbound
    cases hinbound
  | hold frame item rest hinbound | deliver receiver item rest hinbound
  | dead receiver item rest hinbound => rw [hview hnone] at hinbound; cases hinbound
  | sendCancel hcancelling => rw [hview hnone] at hcancelling; cases hcancelling
  | take receiver item rest hreceiver | drop receiver hreceiver =>
    rw [hview hnone] at hreceiver; cases hreceiver

theorem Step.kept (hinv : Inv id view) (hstep : Step id view view') (hkept : view'.Kept) :
    view.Kept := by
  intro receiver hreceiver
  cases hstep with
  | issue request hfresh => rw [hinv.fresh hfresh] at hreceiver; cases hreceiver
  | serve frame rest => exact hkept receiver ((serve_receiver _ _).trans hreceiver)
  | route frame rest => exact hkept receiver ((route_receiver _ _).trans hreceiver)
  | deliver held item rest _ hheld hdropped =>
    obtain rfl := Option.mem_unique hheld hreceiver
    exact hdropped
  | take held item rest hheld =>
    obtain rfl := Option.mem_unique hheld hreceiver
    exact hkept { held with queue := rest, taken := held.taken ++ [item] } rfl
  | drop held hheld => cases hkept _ rfl
  | send | cancel | task | sendFrame | hold | dead | sendCancel => exact hkept receiver hreceiver

/-- What the caller of a request has does not depend on the way of its frames. -/
theorem CallerAt.congr {seen : List ServerFrame} (hcaller : view.CallerAt request seen)
    (hpending : view'.pending = view.pending) (houtcomes : view'.outcomes = view.outcomes)
    (hreceiver : view'.receiver = view.receiver) : view'.CallerAt request seen :=
  ⟨hpending.trans hcaller.pending, fun hcall => houtcomes.trans (hcaller.outcomes hcall),
    fun hstream => hreceiver ▸ hcaller.items hstream⟩

theorem Progress.step (hinv : Inv id view) (hrequest : view.request = some request)
    (hprogress : view.Progress id request) (hstep : Step id view view') (hkept : view'.Kept) :
    view'.Progress id request := by
  have hkept₀ := hstep.kept hinv hkept
  cases hstep with
  | issue other hfresh => rw [hrequest] at hfresh; cases hfresh
  | send frame hsending =>
    cases hprogress with
    | waiting htask hinbound hframe hcaller =>
      rw [hsending, Option.toList_some, singleton_append, List.cons.injEq] at hframe
      refine .waiting htask hinbound ?_ (hcaller.congr rfl rfl rfl)
      obtain ⟨rfl, houtbound⟩ := hframe
      rw [houtbound]
      rfl
    | served task seen htask hframe =>
      rw [hsending] at hframe
      cases hframe
  | serve frame rest houtbound hcancel =>
    cases hprogress with
    | waiting htask hinbound hframe hcaller =>
      obtain ⟨hsending, rfl, rfl⟩ : view.sending = none ∧ frame = request.frame id ∧ rest = [] := by
        rw [houtbound] at hframe
        cases hsending : view.sending with
        | none => simpa [hsending] using hframe
        | some sent => simp [hsending] at hframe
      refine .served _ [] rfl ?_ rfl rfl ⟨rfl, rfl, rfl⟩ ?_ (hcaller.congr rfl rfl rfl)
      · exact congrArg (fun sending => Option.toList sending ++ []) hsending
      · exact congrArg (fun inbound => inbound ++ []) hinbound
    | served task seen htask hframe =>
      rw [houtbound] at hframe
      exact absurd hframe (by simp)
  | cancel frame rest task houtbound hcancel =>
    have hmem : frame ∈ view.sending.toList ++ view.outbound :=
      mem_append_right _ (houtbound ▸ mem_cons_self)
    cases hprogress with
    | waiting htask hinbound hframe =>
      rw [hframe, mem_singleton] at hmem
      rw [hmem] at hcancel
      cases hcancel
    | served task seen htask hframe => rw [hframe] at hmem; cases hmem
  | task task task' htask hmoves =>
    cases hprogress with
    | waiting hnone => rw [htask] at hnone; cases hnone
    | served held seen hheld hframe hmethod hparams hcoherent hframes hcaller =>
      obtain rfl := Option.mem_unique hheld htask
      obtain ⟨hcoherent', hunsent, hframes', hmethod', hparams'⟩ := hmoves.spec hcoherent
      refine .served task' seen rfl hframe (hmethod'.trans hmethod) (hparams'.trans hparams)
        hcoherent' ?_ (hcaller.congr rfl rfl rfl)
      rw [hframes', ← hframes, hunsent, append_nil, append_assoc]
  | sendFrame task frame last htask hphase =>
    cases hprogress with
    | waiting hnone => rw [htask] at hnone; cases hnone
    | served held seen hheld hframe hmethod hparams hcoherent hframes hcaller =>
      obtain rfl := Option.mem_unique hheld htask
      rw [hphase] at hcoherent
      obtain ⟨hreceived, hrest⟩ := hcoherent
      refine .served _ seen rfl hframe hmethod hparams ?_ ?_ (hcaller.congr rfl rfl rfl)
      · cases last with
        | true | false => exact hrest
      · have hunsent : held.unsent = [frame] := by rw [Task.unsent, hphase]
        rw [hunsent] at hframes
        have hnone : Task.unsent { held with
            phase := if last = true then .finished else .streaming } = [] := by
          cases last <;> rfl
        rw [hnone, hreceived, append_nil]
        exact hframes
  | route frame rest hinbound hplain =>
    cases hprogress with
    | waiting htask hnone => rw [hnone] at hinbound; cases hinbound
    | served task seen htask hframe hmethod hparams hcoherent hframes hcaller =>
      rw [hinbound, cons_append] at hframes
      obtain ⟨hsending, houtbound, -, htask', hinbound'⟩ :=
        route_rest { view with inbound := rest } frame
      refine .served task (seen ++ [frame]) (htask'.trans htask) ?_ hmethod hparams hcoherent ?_ ?_
      · rw [hsending, houtbound]
        exact hframe
      · rw [hinbound', ← hframes, append_assoc]
        rfl
      · have hbefore : ({ view with inbound := rest } : View).CallerAt request seen :=
          hcaller.congr rfl rfl rfl
        exact hbefore.route hframes.symm hplain
  | hold frame item rest hinbound hitem =>
    cases hprogress with
    | waiting htask hnone => rw [hnone] at hinbound; cases hinbound
    | served task seen htask hframe hmethod hparams hcoherent hframes hcaller =>
      have hmem : frame ∈ task.frames id := by
        rw [← hframes, hinbound]
        simp
      obtain ⟨item', rfl⟩ | ⟨-, hnone⟩ := Task.mem_frames hmem
      · obtain rfl : item' = item := Option.some.inj hitem
        rw [hinbound] at hframes
        exact .served task seen htask hframe hmethod hparams hcoherent hframes
          (hcaller.congr rfl rfl rfl)
      · rw [hitem] at hnone
        cases hnone
  | deliver receiver item rest hinbound hreceiver =>
    cases hprogress with
    | waiting htask hnone => rw [hnone] at hinbound; cases hinbound
    | served task seen htask hframe hmethod hparams hcoherent hframes hcaller =>
      refine .served task (seen ++ [{ id, item := some item }]) htask hframe hmethod hparams
        hcoherent ?_ (hcaller.deliver rest hreceiver)
      rw [hinbound] at hframes
      rw [← hframes, append_assoc]
      rfl
  | dead receiver item rest hinbound hreceiver hdropped =>
    rw [hkept₀ receiver hreceiver] at hdropped
    cases hdropped
  | sendCancel hcancel => rw [hinv.cancelling hkept₀] at hcancel; cases hcancel
  | take receiver item rest hreceiver hqueue =>
    have hcaller : ∀ seen, view.CallerAt request seen → ({ view with receiver := some { receiver with
        queue := rest, taken := receiver.taken ++ [item] } } : View).CallerAt request seen := by
      intro seen hcaller
      refine ⟨hcaller.pending, hcaller.outcomes, fun hstream => ⟨_, rfl, ?_⟩⟩
      obtain ⟨held, hheld, hitems⟩ := hcaller.items hstream
      obtain rfl := Option.mem_unique hheld hreceiver
      rw [← hitems, hqueue, append_assoc]
      rfl
    cases hprogress with
    | waiting htask hinbound hframe hwaiting =>
      exact .waiting htask hinbound hframe (hcaller [] hwaiting)
    | served task seen htask hframe hmethod hparams hcoherent hframes hseen =>
      exact .served task seen htask hframe hmethod hparams hcoherent hframes (hcaller seen hseen)
  | drop receiver => cases hkept _ rfl

theorem Inv.issue (id : Nat) (request : Request) : Inv id { ({} : View) with
    request := some request, pending := some request.kind, sending := some (request.frame id)
    receiver := match request.kind with
      | .call => none
      | .stream => some {} } where
  fresh h := by cases h
  kind _ h := ⟨request, rfl, Option.some.inj h⟩
  receiver other h := by
    cases h
    cases hkind : request.kind <;> simp
  outcomes _ _ _ := rfl
  cancelling _ := rfl
  sending frame h := by
    cases h
    rfl
  task _ _ _ h := by cases h
  progress other h _ := by
    cases h
    refine .waiting rfl rfl rfl ⟨rfl, fun _ => rfl, fun hkind => ⟨{}, ?_, rfl⟩⟩
    simp [hkind]

theorem route_pending {view : View} {frame : ServerFrame} {kind : RequestKind}
    (hpending : (view.route frame).pending = some kind) : view.pending = some kind := by
  rw [route_eq] at hpending
  split at hpending
  · cases hpending
  · exact hpending

theorem route_outcomes {view : View} {frame : ServerFrame} (hpending : view.pending ≠ some .call) :
    (view.route frame).outcomes = view.outcomes := by
  rw [route_eq]
  split
  · exact if_neg hpending
  · rfl

theorem Inv.step (hinv : Inv id view) (hstep : Step id view view') : Inv id view' := by
  have hrequested := hstep.requested hinv
  have hfresh : view'.request = none → view' = {} := fun h => absurd h hrequested
  have hprogress : ∀ request, view.request = some request → view'.Kept → view'.Progress id request :=
    fun request hrequest hkept =>
      (hinv.progress request hrequest (hstep.kept hinv hkept)).step hinv hrequest hstep hkept
  have hcancelling : view'.Kept → view.cancelling = false :=
    fun hkept => hinv.cancelling (hstep.kept hinv hkept)
  cases hstep with
  | issue request hnone =>
    obtain rfl := hinv.fresh hnone
    exact Inv.issue id request
  | send frame hsending =>
    exact { hinv with
      fresh := hfresh, progress := hprogress
      sending := fun _ h => by cases h }
  | serve frame rest =>
    rw [View.serve] at hfresh hprogress hcancelling ⊢
    cases hmethod : frame.method with
    | none =>
      rw [hmethod] at hfresh hprogress hcancelling
      exact { hinv with fresh := hfresh, progress := hprogress }
    | some method =>
      rw [hmethod] at hfresh hprogress hcancelling
      exact { hinv with
        fresh := hfresh, progress := hprogress
        task := fun task frame last htask hphase => by
          cases htask
          cases hphase }
  | cancel frame rest task houtbound hcancel htask =>
    refine { hinv with fresh := hfresh, progress := hprogress, task := ?_ }
    intro other sent last hother hphase
    rcases htask with rfl | rfl
    · exact hinv.task other sent last hother hphase
    · obtain ⟨held, -, rfl⟩ := Option.map_eq_some_iff.mp hother
      cases hphase
  | task task task' htask hmoves =>
    refine { hinv with fresh := hfresh, progress := hprogress, task := ?_ }
    intro other sent last hother hphase
    cases hother
    exact hmoves.frame_id hphase
  | sendFrame task frame last htask hphase =>
    refine { hinv with fresh := hfresh, progress := hprogress, task := ?_ }
    intro other sent last' hother hphase'
    cases hother
    cases last <;> cases hphase'
  | route frame rest hinbound hplain =>
    obtain ⟨hsending, houtbound, hcancelling', htask, -⟩ :=
      route_rest { view with inbound := rest } frame
    refine ⟨hfresh, ?_, ?_, ?_, ?_, ?_, ?_, ?_⟩
    · intro kind hkind
      rw [route_request]
      have hpending := route_pending hkind
      exact hinv.kind kind hpending
    · rw [route_request, route_receiver]
      exact hinv.receiver
    · intro request hrequest hstream
      rw [route_request] at hrequest
      rw [route_outcomes]
      · exact hinv.outcomes request hrequest hstream
      · intro hcall
        obtain ⟨other, hother, hkind⟩ := hinv.kind .call hcall
        obtain rfl := Option.mem_unique hother hrequest
        rw [hstream] at hkind
        cases hkind
    · exact fun hkept => hcancelling'.trans (hcancelling hkept)
    · rw [hsending]
      exact hinv.sending
    · rw [htask]
      exact hinv.task
    · rw [route_request]
      exact hprogress
  | hold frame item rest => exact { hinv with fresh := hfresh, progress := hprogress }
  | deliver receiver item rest hinbound hreceiver =>
    refine { hinv with
      fresh := hfresh, progress := hprogress, receiver := ?_, cancelling := hcancelling }
    intro request hrequest
    rw [hinv.receiver request hrequest, hreceiver]
    simp
  | dead receiver item rest hinbound hreceiver hdropped =>
    refine { hinv with fresh := hfresh, progress := hprogress, kind := ?_, cancelling := ?_ }
    · intro kind hkind
      cases hkind
    · intro hkept
      rw [hkept receiver hreceiver] at hdropped
      cases hdropped
  | sendCancel hcancel => exact { hinv with fresh := hfresh, progress := hprogress, cancelling :=
    fun _ => rfl }
  | take receiver item rest hreceiver hqueue | drop receiver hreceiver =>
    refine { hinv with
      fresh := hfresh, progress := hprogress, receiver := ?_, cancelling := hcancelling }
    intro request hrequest
    rw [hinv.receiver request hrequest, hreceiver]
    simp

end Steps

end View

/-! ## The connection -/

/-- The invariant of a connection. -/
structure Connection.Tracks (text : JsonText) (conn : Connection) : Prop where
  fresh : ∀ id, conn.nextId ≤ id → conn.requests id = none
  single : ∀ payload ∈ conn.toServer, ∃ frame, clientFrames text payload = [frame]
  reader : ∀ id item, conn.reader = .delivering id item → conn.pending id = some .stream
  views : ∀ id, View.Inv id (conn.view text id)

namespace Connection

variable {text : JsonText} {conn conn' : Connection}

theorem Tracks.new (text : JsonText) : Tracks text {} where
  fresh _ _ := rfl
  single _ h := by cases h
  reader _ _ h := by cases h
  views id := View.Inv.new id

theorem Tracks.addressed (htracks : conn.Tracks text) : conn.Addressed text where
  fresh := htracks.fresh
  single := htracks.single
  sending id := (htracks.views id).sending
  tasks id := (htracks.views id).task

section Preserved

theorem settle_requests (conn : Connection) (id : Nat) (outcome : Outcome) :
    (conn.settle id outcome).requests = conn.requests ∧
      (conn.settle id outcome).nextId = conn.nextId ∧
      (conn.settle id outcome).toServer = conn.toServer ∧
      (conn.settle id outcome).reader = conn.reader := by
  rw [settle]
  split <;> exact ⟨rfl, rfl, rfl, rfl⟩

/-- Routing a frame leaves the reader idle, or with an item of a subscription. -/
theorem routeFrame_spec (conn : Connection) (frame : ServerFrame) :
    (conn.routeFrame frame).requests = conn.requests ∧
      (conn.routeFrame frame).nextId = conn.nextId ∧
      (conn.routeFrame frame).toServer = conn.toServer ∧
      ((conn.routeFrame frame).reader = conn.reader ∨
        (∃ item, (conn.routeFrame frame).reader = .delivering frame.id item) ∧
          (conn.routeFrame frame).pending frame.id = some .stream) := by
  have hsettle : ∀ outcome, (conn.settle frame.id outcome).requests = conn.requests ∧
      (conn.settle frame.id outcome).nextId = conn.nextId ∧
      (conn.settle frame.id outcome).toServer = conn.toServer ∧
      ((conn.settle frame.id outcome).reader = conn.reader ∨
        (∃ item, (conn.settle frame.id outcome).reader = .delivering frame.id item) ∧
          (conn.settle frame.id outcome).pending frame.id = some .stream) := by
    intro outcome
    obtain ⟨hrequests, hnext, hserver, hreader⟩ := settle_requests conn frame.id outcome
    exact ⟨hrequests, hnext, hserver, Or.inl hreader⟩
  rw [routeFrame]
  split
  · exact hsettle _
  · split
    · exact hsettle _
    · split
      next item _ =>
        split
        next hpending => exact ⟨rfl, rfl, rfl, Or.inr ⟨⟨item, rfl⟩, hpending⟩⟩
        · exact ⟨rfl, rfl, rfl, Or.inl rfl⟩
      · split
        · exact hsettle _
        · exact ⟨rfl, rfl, rfl, Or.inl rfl⟩

theorem serveFrame_spec (conn : Connection) (frame : ClientFrame) :
    (conn.serveFrame frame).requests = conn.requests ∧
      (conn.serveFrame frame).nextId = conn.nextId ∧
      (conn.serveFrame frame).toServer = conn.toServer ∧
      (conn.serveFrame frame).reader = conn.reader ∧
      (conn.serveFrame frame).pending = conn.pending := by
  rw [serveFrame]
  split
  · rw [abort]
    split <;> exact ⟨rfl, rfl, rfl, rfl, rfl⟩
  · split <;> exact ⟨rfl, rfl, rfl, rfl, rfl⟩

theorem foldl_serveFrame_spec (conn : Connection) (frames : List ClientFrame) :
    (frames.foldl serveFrame conn).requests = conn.requests ∧
      (frames.foldl serveFrame conn).nextId = conn.nextId ∧
      (frames.foldl serveFrame conn).toServer = conn.toServer ∧
      (frames.foldl serveFrame conn).reader = conn.reader ∧
      (frames.foldl serveFrame conn).pending = conn.pending := by
  induction frames generalizing conn with
  | nil => exact ⟨rfl, rfl, rfl, rfl, rfl⟩
  | cons frame frames ih =>
    obtain ⟨hrequests, hnext, hserver, hreader, hpending⟩ := ih (conn.serveFrame frame)
    obtain ⟨hrequests', hnext', hserver', hreader', hpending'⟩ :=
      serveFrame_spec conn frame
    exact ⟨hrequests.trans hrequests', hnext.trans hnext', hserver.trans hserver',
      hreader.trans hreader', hpending.trans hpending'⟩

/-- What a step does to the parts that all requests share. -/
structure Shared (text : JsonText) (conn conn' : Connection) : Prop where
  fresh : (∀ id, conn.nextId ≤ id → conn.requests id = none) →
    ∀ id, conn'.nextId ≤ id → conn'.requests id = none
  single : ∀ payload ∈ conn'.toServer,
    payload ∈ conn.toServer ∨ ∃ frame, clientFrames text payload = [frame]
  reader : ∀ id item, conn'.reader = .delivering id item →
    (conn.reader = .delivering id item ∧ (conn.pending id = some .stream → conn.requests id ≠ none →
      conn'.pending id = some .stream)) ∨ conn'.pending id = some .stream

theorem Shared.of_eq (hrequests : conn'.requests = conn.requests) (hnext : conn'.nextId = conn.nextId)
    (hserver : ∀ payload ∈ conn'.toServer,
      payload ∈ conn.toServer ∨ ∃ frame, clientFrames text payload = [frame])
    (hreader : conn'.reader = conn.reader) (hpending : conn'.pending = conn.pending) :
    Shared text conn conn' where
  fresh h id hid := by
    rw [hrequests]
    exact h id (hnext ▸ hid)
  single := hserver
  reader id item h := Or.inl ⟨hreader ▸ h, fun hstream _ => hpending ▸ hstream⟩

theorem single_append {payload : List Char} {frame : ClientFrame}
    (hframes : clientFrames text payload = [frame]) :
    ∀ other ∈ conn.toServer ++ [payload],
      other ∈ conn.toServer ∨ ∃ frame, clientFrames text other = [frame] := by
  intro other hother
  rcases mem_append.mp hother with hold | hnew
  · exact Or.inl hold
  · rw [mem_singleton.mp hnew]
    exact Or.inr ⟨frame, hframes⟩

theorem step_shared (hfresh : ∀ id, conn.nextId ≤ id → conn.requests id = none) {action : Action}
    (hreads : ReadsBackWritten text conn action) (hstep : step text conn action = some conn') :
    Shared text conn conn' := by
  have hsame : ∀ payload ∈ conn.toServer,
      payload ∈ conn.toServer ∨ ∃ frame, clientFrames text payload = [frame] :=
    fun _ h => Or.inl h
  cases step_fired hstep with
  | issue request =>
    refine ⟨fun h id hid => ?_, hsame, fun id item h => Or.inl ⟨h, fun hstream hknown => ?_⟩⟩
    · have hne : id ≠ conn.nextId := by
        rintro rfl
        exact absurd hid (Nat.not_succ_le_self _)
      exact (update_of_ne hne _ _).trans (h id (Nat.le_of_succ_le hid))
    · have hne : id ≠ conn.nextId := by
        rintro rfl
        exact hknown (hfresh _ (Nat.le_refl _))
      exact (update_of_ne hne _ _).trans hstream
  | @send id frame hsending =>
    have hframes := clientFrames_write
      (hreads frame.toJson (by simp [Connection.writes, hsending]))
    exact .of_eq rfl rfl (single_append hframes) rfl rfl
  | @serve payload rest hpayload =>
    obtain ⟨hrequests, hnext, hserver, hreader, hpending⟩ := foldl_serveFrame_spec
      { conn with toServer := rest } (clientFrames text payload)
    refine .of_eq hrequests hnext (fun other hother => Or.inl ?_) hreader hpending
    rw [hserver] at hother
    rw [hpayload]
    exact mem_cons_of_mem _ hother
  | reply | yield | endStream | sendFrame | receive | skip | take | drop =>
    exact .of_eq rfl rfl hsame rfl rfl
  | @route line rest frame hidle hlines hread =>
    obtain ⟨hrequests, hnext, hserver, hreader⟩ :=
      routeFrame_spec { conn with lines := rest } frame
    refine ⟨fun h id hid => ?_, fun payload hpayload => Or.inl (hserver ▸ hpayload),
      fun id item hdelivering => Or.inr ?_⟩
    · rw [hrequests]
      exact h id (hnext ▸ hid)
    · rcases hreader with hsame | ⟨⟨held, hheld⟩, hpending⟩
      · rw [hdelivering] at hsame
        cases hsame.trans hidle
      · rw [hdelivering] at hheld
        cases hheld
        exact hpending
  | refuse | deliver => exact ⟨fun h => h, hsame, fun _ _ h => by cases h⟩
  | @sendCancel id hreader =>
    have hframes := @clientFrames_write text { id, cancel := true }
      (hreads _ (by simp [Connection.writes, hreader]))
    exact ⟨fun h => h, single_append hframes, fun _ _ h => by cases h⟩

end Preserved

theorem Tracks.step (htracks : conn.Tracks text) {action : Action}
    (hguard : action.Plain ∧ ReadsBackWritten text conn action)
    (hstep : Rpc.step text conn action = some conn') : conn'.Tracks text := by
  obtain ⟨id, hothers, hown⟩ := step_local htracks.addressed hguard.1 hguard.2 hstep
  have hshared := step_shared htracks.fresh hguard.2 hstep
  refine ⟨hshared.fresh htracks.fresh, fun payload hpayload => ?_, fun other item hreader => ?_,
    fun other => ?_⟩
  · exact (hshared.single payload hpayload).elim (htracks.single payload) fun h => h
  · rcases hshared.reader other item hreader with ⟨hold, hkeeps⟩ | hpending
    · have hpending := htracks.reader other item hold
      obtain ⟨request, hrequest, -⟩ := (htracks.views other).kind _ hpending
      exact hkeeps hpending fun hnone => by
        rw [show conn.requests other = some request from hrequest] at hnone
        cases hnone
    · exact hpending
  · by_cases hother : other = id
    · subst hother
      rcases hown with heq | hlocal
      · rw [heq]
        exact htracks.views other
      · exact (htracks.views other).step hlocal
    · rw [hothers other hother]
      exact htracks.views other

end Connection

/-! ## What callers can rely on -/

/-- How a call ends with a reply. A stream has no value. -/
def Reply.outcome : Reply → Outcome
  | .value json => .ok json
  | .stream => .error .closed
  | .error failure => .error (.failed failure.text)

/-- What a subscription makes of what the handler has returned so far. -/
def Task.yielded (task : Task) : List Json :=
  match task.reply with
  | some .stream => task.items
  | _ => []

/-- The task of a request ran the handler with what was asked. -/
def Task.Serves (task : Task) (request : Request) : Prop :=
  task.method = request.method ∧ task.params = request.params

namespace Connection

/-- The sending end of a subscription is gone. -/
def Closed (conn : Connection) (id : Nat) : Prop :=
  conn.pending id = none ∧ ∀ item, conn.reader ≠ .delivering id item

/-- Every call that has resolved has resolved once, with what its handler returned.
Every subscription that is kept has a prefix of the items of its handler, and all of
them once it has closed. -/
structure Transparent (conn : Connection) : Prop where
  once : ∀ id, (conn.resolved.filter (·.1 = id)).length ≤ 1
  call : ∀ id outcome, (id, outcome) ∈ conn.resolved → ∃ request task reply,
    conn.requests id = some request ∧ request.kind = .call ∧
      conn.tasks id = some task ∧ task.Serves request ∧ task.reply = some reply ∧
        outcome = reply.outcome
  items : ∀ id receiver, conn.receivers id = some receiver → receiver.dropped = false →
    receiver.taken ++ receiver.queue ≠ [] → ∃ request task,
      conn.requests id = some request ∧ conn.tasks id = some task ∧ task.Serves request ∧
        receiver.taken ++ receiver.queue <+: task.yielded
  closed : ∀ id receiver, conn.receivers id = some receiver → receiver.dropped = false →
    conn.Closed id → ∃ request task, conn.requests id = some request ∧
      conn.tasks id = some task ∧ task.Serves request ∧ task.Complete ∧
        receiver.taken ++ receiver.queue = task.yielded

/-- An action that the connection, a handler or a consumer takes on its own. -/
def Internal : Action → Prop
  | .issue _ | .drop _ => False
  | _ => True

def AtRest (text : JsonText) (conn : Connection) : Prop :=
  ∀ action, Internal action → step text conn action = none

/-- Every call has resolved, and every subscription that is kept has closed with all its
items taken. -/
structure Answered (conn : Connection) : Prop where
  calls : ∀ id request, conn.requests id = some request → request.kind = .call →
    ∃ outcome, (id, outcome) ∈ conn.resolved
  streams : ∀ id receiver, conn.receivers id = some receiver → receiver.dropped = false →
    conn.Closed id ∧ receiver.queue = []

end Connection

namespace Task

theorem complete_of_outcomes {id : Nat} {task : Task}
    (houtcomes : (task.frames id).filterMap ServerFrame.outcome ≠ []) : task.Complete := by
  rw [frames] at houtcomes
  split at houtcomes
  · exact absurd rfl houtcomes
  next value hreply => exact ⟨_, hreply, fun h => by cases h⟩
  next error hreply => exact ⟨_, hreply, fun h => by cases h⟩
  next hreply =>
    refine ⟨_, hreply, fun _ => ?_⟩
    by_contra hended
    apply houtcomes
    rw [if_neg hended, append_nil, filterMap_eq_nil_iff]
    intro frame hframe
    obtain ⟨item, -, rfl⟩ := mem_map.mp hframe
    rfl

/-- The outcome of a task whose handler has returned, once its stream has ended. -/
theorem outcomes_of_complete {id : Nat} {task : Task} {reply : Reply}
    (hreply : task.reply = some reply) (hended : reply = .stream → task.ended = true) :
    (task.frames id).filterMap ServerFrame.outcome = [reply.outcome] := by
  cases reply with
  | value value | error error =>
    rw [frames, hreply]
    rfl
  | stream =>
    have hitems : (task.items.map fun item => ({ id, item := some item } : ServerFrame)).filterMap
        ServerFrame.outcome = [] := by
      rw [filterMap_eq_nil_iff]
      intro frame hframe
      obtain ⟨item, -, rfl⟩ := mem_map.mp hframe
      rfl
    rw [frames, hreply, hended rfl]
    simp only [filterMap_append, hitems]
    rfl

theorem items_frames (id : Nat) (task : Task) :
    (task.frames id).filterMap ServerFrame.item = task.yielded := by
  rw [frames, yielded]
  split
  next hreply => rw [hreply]; rfl
  next hreply => rw [hreply]; rfl
  next hreply => rw [hreply]; rfl
  next hreply =>
    have hitems : (task.items.map fun item => ({ id, item := some item } : ServerFrame)).filterMap
        ServerFrame.item = task.items := by
      rw [filterMap_map]
      exact filterMap_some
    rw [hreply, filterMap_append, hitems]
    split <;> simp

end Task

namespace View

variable {id : Nat} {view : View} {request : Request}

/-- A request has ended exactly when its caller has seen every frame of its task. -/
theorem Progress.ended (hprogress : view.Progress id request) (hpending : view.pending = none) :
    ∃ task, view.task = some task ∧ task.Serves request ∧ task.Complete ∧
      view.CallerAt request (task.frames id) := by
  cases hprogress with
  | waiting _ _ _ hcaller =>
    have hsome := hcaller.pending
    rw [hpending] at hsome
    cases hsome
  | served task seen htask _ hmethod hparams _ hframes hcaller =>
    have houtcomes : seen.filterMap ServerFrame.outcome ≠ [] := by
      intro hnil
      have hsome := hcaller.pending
      rw [hpending, if_pos hnil] at hsome
      cases hsome
    have hrest : view.inbound ++ task.unsent = [] := by
      cases hrest : view.inbound ++ task.unsent with
      | nil => rfl
      | cons frame rest =>
        rw [hrest] at hframes
        exact absurd (Task.outcomes_before hframes.symm) houtcomes
    rw [hrest, append_nil] at hframes
    rw [hframes] at hcaller houtcomes
    exact ⟨task, htask, ⟨hmethod, hparams⟩, Task.complete_of_outcomes houtcomes, hcaller⟩

theorem Progress.unresolved (hprogress : view.Progress id request) (hpending : view.pending ≠ none)
    (hcall : request.kind = .call) : view.outcomes = [] := by
  obtain ⟨seen, hcaller⟩ : ∃ seen, view.CallerAt request seen := by
    cases hprogress with
    | waiting _ _ _ hcaller => exact ⟨_, hcaller⟩
    | served _ seen _ _ _ _ _ _ hcaller => exact ⟨seen, hcaller⟩
  rw [hcaller.outcomes hcall]
  by_contra hsome
  exact hpending (hcaller.pending.trans (if_neg hsome))

theorem Inv.kept_of_call (hinv : Inv id view) (hrequest : view.request = some request)
    (hcall : request.kind = .call) : view.Kept := by
  intro receiver hreceiver
  have hstream := (hinv.receiver request hrequest).mpr (by simp [hreceiver])
  rw [hcall] at hstream
  cases hstream

end View

namespace Connection

variable {text : JsonText} {conn conn' : Connection}

section
variable (htracks : conn.Tracks text)
include htracks

/-- The outcomes of a request are those of the reply of its task, or none yet. -/
theorem Tracks.outcomes (id : Nat) :
    (conn.view text id).outcomes = [] ∨ ∃ request task reply, conn.requests id = some request ∧
      request.kind = .call ∧ conn.tasks id = some task ∧ task.Serves request ∧
        task.reply = some reply ∧ (conn.view text id).outcomes = [reply.outcome] := by
  have hinv := htracks.views id
  cases hrequest : (conn.view text id).request with
  | none =>
    rw [hinv.fresh hrequest]
    exact Or.inl rfl
  | some request =>
    cases hkind : request.kind with
    | stream => exact Or.inl (hinv.outcomes request hrequest hkind)
    | call =>
      have hprogress := hinv.progress request hrequest (hinv.kept_of_call hrequest hkind)
      by_cases hpending : (conn.view text id).pending = none
      · obtain ⟨task, htask, hserves, ⟨reply, hreply, hended⟩, hcaller⟩ :=
          hprogress.ended hpending
        refine Or.inr ⟨request, task, reply, hrequest, hkind, htask, hserves, hreply, ?_⟩
        rw [hcaller.outcomes hkind, Task.outcomes_of_complete hreply hended]
      · exact Or.inl (hprogress.unresolved hpending hkind)

theorem Tracks.subscription {id : Nat} {receiver : Receiver}
    (hreceiver : conn.receivers id = some receiver) (hkept : receiver.dropped = false) :
    ∃ request, conn.requests id = some request ∧ request.kind = .stream ∧
      (conn.view text id).Progress id request := by
  have hinv := htracks.views id
  have hviewed : (conn.view text id).receiver = some receiver := hreceiver
  cases hrequest : (conn.view text id).request with
  | none =>
    rw [hinv.fresh hrequest] at hviewed
    cases hviewed
  | some request =>
    have hstream := (hinv.receiver request hrequest).mpr (by simp [hviewed])
    refine ⟨request, hrequest, hstream, hinv.progress request hrequest fun held hheld => ?_⟩
    obtain rfl := Option.mem_unique hheld hviewed
    exact hkept

theorem Tracks.transparent : conn.Transparent where
  once id := by
    have hlength : (conn.view text id).outcomes.length = (conn.resolved.filter (·.1 = id)).length :=
      length_map _
    rw [← hlength]
    rcases htracks.outcomes id with hnil | ⟨_, _, _, _, _, _, _, _, hone⟩
    · rw [hnil]
      exact Nat.zero_le _
    · rw [hone]
      exact Nat.le_refl _
  call id outcome hmem := by
    have houtcome : outcome ∈ (conn.view text id).outcomes :=
      mem_map.mpr ⟨(id, outcome), mem_filter.mpr ⟨hmem, decide_eq_true rfl⟩, rfl⟩
    rcases htracks.outcomes id with
      hnil | ⟨request, task, reply, hrequest, hkind, htask, hserves, hreply, hone⟩
    · rw [hnil] at houtcome
      cases houtcome
    · rw [hone, mem_singleton] at houtcome
      exact ⟨request, task, reply, hrequest, hkind, htask, hserves, hreply, houtcome⟩
  items id receiver hreceiver hkept hitems := by
    obtain ⟨request, hrequest, hstream, hprogress⟩ := htracks.subscription hreceiver hkept
    have hseen : ∀ seen, (conn.view text id).CallerAt request seen →
        receiver.taken ++ receiver.queue = seen.filterMap ServerFrame.item := by
      intro seen hcaller
      obtain ⟨held, hheld, hheldItems⟩ := hcaller.items hstream
      obtain rfl := Option.mem_unique hheld hreceiver
      exact hheldItems
    cases hprogress with
    | waiting _ _ _ hcaller => exact absurd (hseen [] hcaller) hitems
    | served task seen htask _ hmethod hparams _ hframes hcaller =>
      refine ⟨request, task, hrequest, htask, ⟨hmethod, hparams⟩, ?_⟩
      rw [hseen seen hcaller, ← Task.items_frames id task, ← hframes, filterMap_append]
      exact prefix_append _ _
  closed id receiver hreceiver hkept hclosed := by
    obtain ⟨request, hrequest, hstream, hprogress⟩ := htracks.subscription hreceiver hkept
    obtain ⟨task, htask, hserves, hcomplete, hcaller⟩ := hprogress.ended hclosed.1
    obtain ⟨held, hheld, hitems⟩ := hcaller.items hstream
    obtain rfl := Option.mem_unique hheld hreceiver
    exact ⟨request, task, hrequest, htask, hserves, hcomplete,
      hitems.trans (Task.items_frames id task)⟩

end

section Rest

theorem AtRest.quiet (htracks : conn.Tracks text) (hrest : conn.AtRest text) :
    conn.reader = .idle ∧ conn.lines = [] ∧ conn.toClient = [] ∧ conn.toServer = [] ∧
      (∀ id, conn.sending id = none) ∧
      ∀ id task, conn.tasks id = some task → task.phase = .finished := by
  have hserver : conn.toServer = [] := by
    have hserve := hrest .serve trivial
    cases hpayloads : conn.toServer with
    | nil => rfl
    | cons payload rest => simp [step, hpayloads] at hserve
  have hqueues : ∀ id receiver, conn.receivers id = some receiver → receiver.dropped = false →
      receiver.queue = [] := by
    intro id receiver hreceiver hkept
    have htake := hrest (.take id) trivial
    cases hqueue : receiver.queue with
    | nil => rfl
    | cons item rest => simp [step, hreceiver, hqueue, hkept] at htake
  have hreader : conn.reader = .idle := by
    cases hreader : conn.reader with
    | idle => rfl
    | delivering id item =>
      have hdeliver := hrest .deliver trivial
      have hpending := htracks.reader id item hreader
      obtain ⟨request, hrequest, hstream⟩ := (htracks.views id).kind .stream hpending
      have hsome := ((htracks.views id).receiver request hrequest).mp hstream
      obtain ⟨receiver, hreceiver⟩ := Option.ne_none_iff_exists'.mp hsome
      have hreceiver : conn.receivers id = some receiver := hreceiver
      cases hdropped : receiver.dropped with
      | true => simp [step, hreader, hreceiver, hdropped] at hdeliver
      | false =>
        have hqueue := hqueues id receiver hreceiver hdropped
        simp [step, hreader, hreceiver, hdropped, hqueue, STREAM_QUEUE_CAP] at hdeliver
    | cancelling id =>
      have hcancel := hrest .sendCancel trivial
      simp [step, hreader, hserver, channelDepth] at hcancel
  have hlines : conn.lines = [] := by
    have hroute := hrest .route trivial
    cases hlines : conn.lines with
    | nil => rfl
    | cons line rest =>
      cases hread : ServerFrame.read text line <;> simp [step, hreader, hlines, hread] at hroute
  have hclient : conn.toClient = [] := by
    have hreceive := hrest .receive trivial
    cases hpayloads : conn.toClient with
    | nil => rfl
    | cons payload rest => simp [step, hreader, hlines, hpayloads] at hreceive
  refine ⟨hreader, hlines, hclient, hserver, fun id => ?_, fun id task htask => ?_⟩
  · have hsend := hrest (.send id) trivial
    cases hsending : conn.sending id with
    | none => rfl
    | some frame => simp [step, hsending, hserver, channelDepth] at hsend
  · cases hphase : task.phase with
    | handling =>
      have hreply := hrest (.reply id .stream) trivial
      simp [step, htask, hphase] at hreply
    | sending frame last =>
      have hsend := hrest (.sendFrame id) trivial
      simp [step, htask, hphase, hclient, channelDepth] at hsend
    | streaming =>
      have hend := hrest (.endStream id) trivial
      simp [step, htask, hphase] at hend
    | finished => rfl

theorem AtRest.pending (htracks : conn.Tracks text) (hrest : conn.AtRest text) {id : Nat}
    {request : Request} (hprogress : (conn.view text id).Progress id request) :
    conn.pending id = none := by
  obtain ⟨hreader, hlines, hclient, hserver, hsending, htasks⟩ := hrest.quiet htracks
  have hinbound : (conn.view text id).inbound = [] := by
    simp [view, toClientFrames, hreader, hlines, hclient, Reader.frames, serverFrames]
  have hnone : (conn.view text id).sending.toList ++ (conn.view text id).outbound = [] := by
    simp [view, toServerFrames, hserver, hsending id]
  cases hprogress with
  | waiting _ _ hframe _ =>
    rw [hnone] at hframe
    cases hframe
  | served task seen htask _ _ _ hcoherent hframes hcaller =>
    have hphase := htasks id task htask
    have hunsent : task.unsent = [] := by rw [Task.unsent, hphase]
    rw [hphase] at hcoherent
    obtain ⟨reply, hreply, hended⟩ : task.Complete := hcoherent
    rw [hinbound, hunsent, append_nil, append_nil] at hframes
    have hpending := hcaller.pending
    rw [hframes, Task.outcomes_of_complete hreply hended] at hpending
    exact hpending

theorem AtRest.answered (htracks : conn.Tracks text) (hrest : conn.AtRest text) :
    conn.Answered where
  calls id request hrequest hcall := by
    have hinv := htracks.views id
    have hprogress := hinv.progress request hrequest (hinv.kept_of_call hrequest hcall)
    obtain ⟨task, -, -, ⟨reply, hreply, hended⟩, hcaller⟩ :=
      hprogress.ended (hrest.pending htracks hprogress)
    have houtcomes := hcaller.outcomes hcall
    rw [Task.outcomes_of_complete hreply hended] at houtcomes
    have hmem : reply.outcome ∈ (conn.view text id).outcomes := by
      rw [houtcomes]
      exact mem_singleton_self _
    obtain ⟨⟨other, outcome⟩, hresolved, -⟩ := mem_map.mp hmem
    obtain ⟨hresolved, hother⟩ := mem_filter.mp hresolved
    exact ⟨outcome, of_decide_eq_true hother ▸ hresolved⟩
  streams id receiver hreceiver hkept := by
    obtain ⟨request, -, -, hprogress⟩ := htracks.subscription hreceiver hkept
    refine ⟨⟨hrest.pending htracks hprogress, fun item hreader => ?_⟩, ?_⟩
    · rw [(hrest.quiet htracks).1] at hreader
      cases hreader
    · have htake := hrest (.take id) trivial
      cases hqueue : receiver.queue with
      | nil => rfl
      | cons item rest => simp [step, hreceiver, hqueue, hkept] at htake

end Rest

end Connection

section Runs

/-- A JSON library on the values of a table. -/
def tableText (table : List (Json × String)) : JsonText where
  write json := ((table.find? (·.1 = json)).map (·.2.toList)).getD []
  read line := (table.find? (·.2.toList = line)).map (·.1)

instance (text : JsonText) (json : Json) : Decidable (text.ReadsBack json) :=
  decidable_of_iff (payloadLines (text.write json) = [text.write json] ∧
    text.read (text.write json) = some json) ⟨fun h => ⟨h.1, h.2⟩, fun h => ⟨h.line, h.value⟩⟩

instance : ∀ action : Action, Decidable action.Plain
  | .reply _ returned => inferInstanceAs (Decidable (returned ≠ .value .null))
  | .yield _ item => inferInstanceAs (Decidable (item ≠ .null))
  | .issue _ | .send _ | .serve | .endStream _ | .sendFrame _ | .receive | .route | .deliver
  | .sendCancel | .take _ | .drop _ => isTrue trivial

instance (text : JsonText) (conn : Connection) (action : Action) :
    Decidable (ReadsBackWritten text conn action) :=
  inferInstanceAs (Decidable (∀ json ∈ conn.writes action, text.ReadsBack json))

/-- A call and a subscription whose replies cross. -/
def crossingRun : List Action := [
  .issue ⟨.call, "Echo", .int 7⟩, .issue ⟨.stream, "Count", .null⟩,
  .send 2, .send 1, .serve, .reply 2 .stream, .serve, .yield 2 (.int 0), .sendFrame 2,
  .reply 1 (.value (.int 7)), .sendFrame 1, .receive, .endStream 2, .route, .sendFrame 2,
  .deliver, .receive, .route, .take 2, .receive, .route]

def crossingText : JsonText := tableText [
  (ClientFrame.toJson { id := 1, method := some "Echo", params := .int 7 },
    "\x7b\"id\":1,\"method\":\"Echo\",\"params\":7\x7d"),
  (ClientFrame.toJson { id := 2, method := some "Count" }, "\x7b\"id\":2,\"method\":\"Count\"\x7d"),
  (ServerFrame.toJson { id := 1, ok := some (.int 7) }, "\x7b\"id\":1,\"ok\":7\x7d"),
  (ServerFrame.toJson { id := 2, item := some (.int 0) }, "\x7b\"id\":2,\"item\":0\x7d"),
  (ServerFrame.toJson { id := 2, done := true }, "\x7b\"id\":2,\"done\":true\x7d")]

/-- In a run whose handlers return no null, and whose frames the JSON library reads back
as it wrote them, every call that has resolved has resolved once and with what its
handler returned, every subscription that is kept has a prefix of the items of its
handler and has closed only with all of them, and when nothing is left to do every call
has resolved and every such subscription has closed. -/
theorem plain_transparent (text : JsonText) (trace : List Action) (conn : Connection)
    (hguarded : Trace.Guarded (step text)
      (fun conn action => action.Plain ∧ ReadsBackWritten text conn action) {} trace)
    (hrun : Trace.run (step text) {} trace = some conn) :
    conn.Transparent ∧ (conn.AtRest text → conn.Answered) := by
  have htracks : conn.Tracks text :=
    Trace.guarded_invariant (fun _ _ _ htracks hguard hstep => htracks.step hguard hstep)
      (.new text) hguarded hrun
  exact ⟨htracks.transparent, fun hrest => hrest.answered htracks⟩

theorem crossing_transparent : ∃ conn, Trace.run (step crossingText) {} crossingRun = some conn ∧
    conn.resolved = [(1, .ok (.int 7))] ∧
      conn.Transparent ∧ (conn.AtRest crossingText → conn.Answered) := by
  have hview : (Trace.run (step crossingText) {} crossingRun).map (fun conn => conn.resolved) =
      some [(1, .ok (.int 7))] := by decide +kernel
  obtain ⟨conn, hrun, hresolved⟩ := Option.map_eq_some_iff.mp hview
  have hguarded : Trace.Guarded (step crossingText) (fun conn action =>
      action.Plain ∧ ReadsBackWritten crossingText conn action) {} crossingRun := by decide +kernel
  exact ⟨conn, hrun, hresolved, plain_transparent crossingText crossingRun conn hguarded hrun⟩

def nullRun : List Action := [
  .issue ⟨.call, "Echo", .null⟩, .send 1, .serve, .reply 1 (.value .null), .sendFrame 1,
  .receive, .route]

def nullText : JsonText := tableText [
  (ClientFrame.toJson { id := 1, method := some "Echo" }, "\x7b\"id\":1,\"method\":\"Echo\"\x7d"),
  (ServerFrame.toJson { id := 1, ok := some .null }, "\x7b\"id\":1,\"ok\":null\x7d")]

/-- Where it ends: the call is pending, and its task has ended. -/
def nullEnd : Connection :=
  let request : Request := ⟨.call, "Echo", .null⟩
  let frame : ServerFrame := { id := 1, ok := some .null }
  let task : Task := { method := "Echo", params := .null }
  let replied : Task := { task with phase := .sending frame true, reply := some (.value .null) }
  { requests := update (fun _ => none) 1 (some request)
    nextId := 2
    pending := update (fun _ => none) 1 (some .call)
    sending := update (update (fun _ => none) 1 (some (request.frame 1))) 1 none
    running := [1]
    tasks := update (update (update (fun _ => none) 1 (some task)) 1
      (some replied)) 1 (some { replied with phase := .finished }) }

theorem run_nullRun : Trace.run (step nullText) {} nullRun = some nullEnd := rfl

theorem nullEnd_atRest : nullEnd.AtRest nullText := by
  intro action hinternal
  have htask : ∀ id task, nullEnd.tasks id = some task → task.phase = .finished := by
    intro id task htask
    by_cases hid : id = 1
    · subst hid
      cases htask
      rfl
    · simp [nullEnd, hid] at htask
  have hsending : ∀ id, nullEnd.sending id = none := by
    intro id
    by_cases hid : id = 1
    · subst hid
      rfl
    · simp [nullEnd]
  cases action with
  | issue request | drop id => cases hinternal
  | serve | receive | route | deliver | sendCancel | take id => rfl
  | send id => rw [step, hsending id]
  | reply id returned | yield id item | endStream id =>
    rw [step]
    split
    next task hsome => rw [if_neg (by rw [htask id task hsome]; decide)]
    · rfl
  | sendFrame id =>
    rw [step]
    split
    next task hsome => rw [htask id task hsome]
    · rfl

/-- The value is dropped on the way, and the call waits for good. -/
theorem null_value_never_resolves : ¬ ∀ (text : JsonText) (trace : List Action) (conn : Connection),
    Trace.Guarded (step text) (ReadsBackWritten text) {} trace →
      Trace.run (step text) {} trace = some conn →
        conn.Transparent ∧ (conn.AtRest text → conn.Answered) := by
  intro hall
  have hguarded : Trace.Guarded (step nullText) (ReadsBackWritten nullText) {} nullRun := by
    decide +kernel
  obtain ⟨-, hanswered⟩ := hall nullText nullRun nullEnd hguarded run_nullRun
  obtain ⟨outcome, hmem⟩ := (hanswered nullEnd_atRest).calls 1 ⟨.call, "Echo", .null⟩ rfl rfl
  cases hmem

end Runs

end Rpc

end Keel
