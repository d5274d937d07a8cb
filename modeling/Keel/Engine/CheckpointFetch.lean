import Mathlib.Data.List.Infix

/-! # Checkpoint download with Range resume

An attempt continues at the byte where the last one stopped. The remote checkpoint may be
replaced between any two attempts; every response names the one it was made from.
-/

namespace Keel.CheckpointFetch

open List

/-- The errors of `fetch` among those of the sync layer. -/
inductive SyncError where
  | auth (message : String)
  | protocol (message : String)

/-- A response: its seq header, and the chunks that arrive before the body ends or drops. -/
structure Response where
  checkpointSeq : Option String
  status : Nat
  chunks : List (List UInt8)
  dropped : Bool

/-- What becomes of one attempt. -/
inductive Reply where
  | signedOut
  | sendFailed
  | response (response : Response)

/-- The other side of a download: its reply to an attempt, given the offset asked for. -/
abbrev Remote := Nat → Option Nat → Reply

structure Download where
  got : List UInt8 := []
  seenSeq : Option String := none

inductive Outcome where
  | again (download : Download)
  | done (result : Except SyncError (List UInt8))

/-- The range header, left out while there is nothing to resume. -/
def Download.range (download : Download) : Option Nat :=
  if download.got.isEmpty then none else some download.got.length

/-- The body of a response, read until it ends or drops. -/
def readBody (seenSeq : Option String) (got : List UInt8) (response : Response) : Outcome :=
  let got := got ++ response.chunks.flatten
  if response.dropped then .again { got, seenSeq } else .done (.ok got)

def receive (download : Download) (response : Response) : Outcome :=
  let seq := response.checkpointSeq
  if seq.isSome ∧ download.seenSeq.isSome ∧ seq ≠ download.seenSeq then
    -- replaced since the last attempt: start over
    .again { got := [], seenSeq := seq }
  else
    let seenSeq := if seq.isSome then seq else download.seenSeq
    match response.status with
    | 200 => readBody seenSeq [] response
    | 206 => readBody seenSeq download.got response
    | 416 => .done (.error (.protocol "checkpoint range beyond end"))
    | 404 => .done (.error (.protocol "no checkpoint"))
    | code => .done (.error (.protocol ("checkpoint HTTP " ++ toString code)))

def attempt (download : Download) : Reply → Outcome
  | .signedOut => .done (.error (.auth "signed out"))
  | .sendFailed => .again download
  | .response response => receive download response

/-- The attempts from the given one on, as long as there are some left. -/
def attempts (remote : Remote) : Nat → Nat → Download → Except SyncError (List UInt8)
  | _, 0, _ => .error (.protocol "checkpoint fetch exhausted resume attempts")
  | index, left + 1, download =>
    match attempt download (remote index download.range) with
    | .again download => attempts remote (index + 1) left download
    | .done result => result

def fetch (remote : Remote) : Except SyncError (List UInt8) := attempts remote 0 4 {}

/-- A body that arrives in part, or whole when it does not drop. -/
def Response.Delivers (response : Response) (body : List UInt8) : Prop :=
  response.chunks.flatten <+: body ∧
    (response.dropped = false → response.chunks.flatten = body)

section Serving

variable (blob : String → List UInt8)

/-- A remote that answers from the checkpoint it names: whole, or from the offset asked for. -/
def Serves (remote : Remote) : Prop :=
  ∀ index range response, remote index range = .response response →
    ∃ seq, response.checkpointSeq = some seq ∧
      (response.status = 200 → response.Delivers (blob seq)) ∧
      (response.status = 206 → ∃ offset, range = some offset ∧
        response.Delivers ((blob seq).drop offset))

/-- What has been kept is the start of the checkpoint last named. -/
structure Download.Starts (download : Download) : Prop where
  unseen : download.seenSeq = none → download.got = []
  seen : ∀ seq, download.seenSeq = some seq → download.got <+: blob seq

/-- The remote has answered from this checkpoint. -/
def Names (remote : Remote) (seq : String) : Prop :=
  ∃ index range response, remote index range = .response response ∧
    response.checkpointSeq = some seq

/-- An attempt goes on with the start of a checkpoint, or returns a whole one, or fails. -/
def Outcome.Sound (remote : Remote) : Outcome → Prop
  | .again download => download.Starts blob
  | .done (.ok bytes) => ∃ seq, Names remote seq ∧ bytes = blob seq
  | .done (.error _) => True

variable {blob} {remote : Remote}

theorem readBody_sound {seq : String} {got : List UInt8} {response : Response}
    (hnames : Names remote seq) (hgot : got <+: blob seq)
    (hdelivers : response.Delivers ((blob seq).drop got.length)) :
    (readBody (some seq) got response).Sound blob remote := by
  obtain ⟨rest, hrest⟩ := hgot
  rw [← hrest, drop_left] at hdelivers
  rw [readBody]
  cases hdropped : response.dropped with
  | true =>
    refine { unseen := nofun, seen := fun other hother => ?_ }
    cases hother
    rw [← hrest]
    exact (prefix_append_right_inj got).mpr hdelivers.1
  | false =>
    refine ⟨seq, hnames, ?_⟩
    rw [hdelivers.2 hdropped, hrest]

theorem receive_sound {download : Download} (hstarts : download.Starts blob)
    (hserves : Serves blob remote) {index : Nat} {response : Response}
    (hresponse : remote index download.range = .response response) :
    (receive download response).Sound blob remote := by
  obtain ⟨seq, hseq, hwhole, hpart⟩ := hserves index download.range response hresponse
  have hnames : Names remote seq := ⟨index, download.range, response, hresponse, hseq⟩
  simp only [receive, hseq, Option.isSome_some, true_and, if_true]
  split
  next hreplaced => exact { unseen := nofun, seen := fun _ _ => List.nil_prefix }
  next hsame =>
    split
    next hstatus => exact readBody_sound hnames List.nil_prefix (hwhole hstatus)
    next hstatus =>
      obtain ⟨offset, hoffset, hdelivers⟩ := hpart hstatus
      -- a range was asked for, so something is kept, and of this very checkpoint
      rw [Download.range] at hoffset
      split at hoffset
      · cases hoffset
      next hkept =>
        cases hoffset
        cases hseen : download.seenSeq with
        | none => exact absurd (hstarts.unseen hseen) (by simpa using hkept)
        | some last =>
          have hlast : seq = last := by
            by_contra hne
            exact hsame ⟨by rw [hseen]; rfl, by rwa [hseen, Ne, Option.some.injEq]⟩
          exact readBody_sound hnames (hlast ▸ hstarts.seen last hseen) hdelivers
    all_goals trivial

theorem attempt_sound {download : Download} (hstarts : download.Starts blob)
    (hserves : Serves blob remote) (index : Nat) :
    (attempt download (remote index download.range)).Sound blob remote := by
  cases hreply : remote index download.range with
  | signedOut => trivial
  | sendFailed => exact hstarts
  | response response => exact receive_sound hstarts hserves hreply

theorem attempts_sound (hserves : Serves blob remote) (left : Nat) {index : Nat}
    {download : Download} (hstarts : download.Starts blob) {bytes : List UInt8}
    (hok : attempts remote index left download = .ok bytes) :
    ∃ seq, Names remote seq ∧ bytes = blob seq := by
  induction left generalizing index download with
  | zero => cases hok
  | succ left ih =>
    have hsound := attempt_sound hstarts hserves index
    rw [attempts] at hok
    split at hok
    next next hagain =>
      rw [hagain] at hsound
      exact ih hsound hok
    next result hdone =>
      rw [hdone, hok] at hsound
      exact hsound

/-- A download that succeeds returns the whole of one checkpoint. -/
theorem fetch_whole (hserves : Serves blob remote) {bytes : List UInt8}
    (hok : fetch remote = .ok bytes) : ∃ seq, Names remote seq ∧ bytes = blob seq := by
  have hstarts : Download.Starts blob {} :=
    { unseen := fun _ => rfl
      seen := fun seq hseen => by cases hseen }
  exact attempts_sound hserves 4 hstarts hok

end Serving

def replacedBlob (seq : String) : List UInt8 := if seq = "1" then [1, 2] else [4, 5, 6]

/-- The first body drops, the checkpoint is replaced, and the next one drops and resumes. -/
def replacedRemote : Remote
  | 0, none => .response ⟨some "1", 200, [[1]], true⟩
  | 2, none => .response ⟨some "2", 200, [[4]], true⟩
  | _, none => .sendFailed
  | _, some offset => .response ⟨some "2", 206, [(replacedBlob "2").drop offset], false⟩

theorem fetch_whole_replaced : ∃ seq, Names replacedRemote seq ∧ [4, 5, 6] = replacedBlob seq := by
  have hserves : Serves replacedBlob replacedRemote := by
    intro index range response hresponse
    unfold replacedRemote at hresponse
    split at hresponse
    · cases hresponse
      exact ⟨"1", rfl, fun _ => ⟨by decide, nofun⟩, nofun⟩
    · cases hresponse
      exact ⟨"2", rfl, fun _ => ⟨by decide, nofun⟩, nofun⟩
    · cases hresponse
    next offset =>
      cases hresponse
      have hwhole : [(replacedBlob "2").drop offset].flatten = (replacedBlob "2").drop offset :=
        flatten_singleton
      exact ⟨"2", rfl, nofun, fun _ => ⟨offset, rfl, by rw [hwhole], fun _ => hwhole⟩⟩
  exact fetch_whole hserves rfl

end Keel.CheckpointFetch
