import Keel.Foundation.Trace
import Keel.Foundation.Utf8
import Mathlib

/-! # The list of registered repositories

`repos.json` holds the paths of the repositories a user added, cloned or created. A
registration reads the whole file, empties it and writes it again, and an unreadable
file counts as empty. Calls overlap: nothing locks the file between the three.
-/

namespace Keel.Repos

open List Function Option

/-- The JSON library on lists of paths. -/
structure PathsCodec where
  print : List String → List UInt8
  parse : List UInt8 → Option (List String)
  parse_print : ∀ paths, parse (print paths) = some paths

/-- How far a call got with registering its path. -/
inductive Stage
  | idle
  | loaded (path : String) (paths : List String)
  | truncated (path : String) (paths : List String)
  | registered (path : String)

def Stage.snapshot : Stage → Option (String × List String)
  | .loaded path paths | .truncated path paths => some (path, paths)
  | _ => none

def Stage.torn : Stage → Bool
  | .truncated _ _ => true
  | _ => false

structure State where
  file : Option (List UInt8)
  stage : Nat → Stage
  /-- The paths written so far, one entry for every completed save. -/
  saved : List String
  /-- The paths whose call returned `Ok`. -/
  answered : List String

inductive Action
  | load (id : Nat) (path : String)
  | truncate (id : Nat)
  | write (id : Nat)
  | fail (id : Nat)
  | reply (id : Nat) (ok : Bool)
  /-- The engine stops, perhaps with the first bytes of one call's file written. -/
  | crash (cut : Option (Nat × Nat))

def loadPaths (codec : PathsCodec) (file : Option (List UInt8)) : List String :=
  (file.bind codec.parse).getD []

def dedupe (paths : List String) : List String :=
  paths.foldl (fun kept path => if path ∈ kept then kept else kept ++ [path]) []

/-- What the call writes: the paths it read and its own, without repetitions. -/
def content (codec : PathsCodec) (path : String) (paths : List String) : List UInt8 :=
  codec.print (dedupe (paths ++ [path]))

/-- A write at the start of the file. -/
def overwrite (file : Option (List UInt8)) (bytes : List UInt8) : List UInt8 :=
  bytes ++ (file.getD []).drop bytes.length

def State.move (state : State) (id : Nat) (stage : Stage) : State :=
  { state with stage := update state.stage id stage }

def step (codec : PathsCodec) (state : State) : Action → Option State
  | .load id path =>
    match state.stage id with
    | .idle => some (state.move id (.loaded path (loadPaths codec state.file)))
    | _ => none
  | .truncate id =>
    match state.stage id with
    | .loaded path paths => some { state.move id (.truncated path paths) with file := some [] }
    | _ => none
  | .write id =>
    match state.stage id with
    | .truncated path paths =>
      some { state.move id (.registered path) with
        file := some (overwrite state.file (content codec path paths))
        saved := state.saved ++ [path] }
    | _ => none
  | .fail id => if (state.stage id).snapshot.isSome then some (state.move id .idle) else none
  | .reply id ok =>
    match state.stage id with
    | .registered path =>
      some { state.move id .idle with
        answered := if ok = true then state.answered ++ [path] else state.answered }
    | _ => none
  | .crash none => some { state with stage := fun _ => .idle }
  | .crash (some (id, count)) =>
    match state.stage id with
    | .truncated path paths =>
      let bytes := (content codec path paths).take count
      some { state with file := some (overwrite state.file bytes), stage := fun _ => .idle }
    | _ => none

def start : State := { file := none, stage := fun _ => .idle, saved := [], answered := [] }

/-- When nothing is in flight, every path whose call returned `Ok` is listed once, and the
listed paths are in the order of their first registration. -/
def Remembered (codec : PathsCodec) (state : State) : Prop :=
  (∀ id, state.stage id = .idle) →
    (∀ path ∈ state.answered, (loadPaths codec state.file).count path = 1) ∧
      (loadPaths codec state.file).Sublist (dedupe state.saved)

/-- No call reads the list while another is between its own read and its write, and no save is
given up or cut by a crash once it has emptied the file. -/
def Undisturbed (state : State) : Action → Prop
  | .load _ _ => ∀ id, (state.stage id).snapshot = none
  | .fail id => (state.stage id).torn = false
  | .crash _ => ∀ id, (state.stage id).torn = false
  | _ => True

theorem dedupe_concat (paths : List String) (path : String) : dedupe (paths ++ [path]) =
    if path ∈ dedupe paths then dedupe paths else dedupe paths ++ [path] := by
  rw [dedupe, foldl_concat]
  rfl

theorem dedupe_spec (paths : List String) :
    (dedupe paths).Nodup ∧ (∀ path, path ∈ dedupe paths ↔ path ∈ paths) ∧
      (paths.Nodup → dedupe paths = paths) := by
  induction paths using List.reverseRecOn with
  | nil => exact ⟨nodup_nil, fun _ => Iff.rfl, fun _ => rfl⟩
  | append_singleton paths path ih =>
    obtain ⟨hnodup, hmem, hself⟩ := ih
    rw [dedupe_concat]
    split
    next hin =>
      refine ⟨hnodup, fun other => ?_, fun hall => ?_⟩
      · rw [hmem, mem_append, mem_singleton]
        exact ⟨.inl, fun h => h.elim id fun heq => heq ▸ (hmem path).mp hin⟩
      · have hout := (nodup_append.mp hall).2.2 path ((hmem path).mp hin) path (by simp)
        exact absurd rfl hout
    next hout =>
      refine ⟨?_, fun other => ?_, fun hall => ?_⟩
      · exact nodup_append.mpr ⟨hnodup, nodup_singleton path,
          fun other hother last hlast => by rintro rfl; exact hout (mem_singleton.mp hlast ▸ hother)⟩
      · rw [mem_append, mem_append, hmem]
      · rw [hself (nodup_append.mp hall).1]

theorem dedupe_dedupe_concat (paths : List String) (path : String) :
    dedupe (dedupe paths ++ [path]) = dedupe (paths ++ [path]) := by
  rw [dedupe_concat, dedupe_concat, (dedupe_spec _).2.2 (dedupe_spec paths).1]

/-- What a call in flight knows agrees with what has been written. -/
def Fits (file : Option (List UInt8)) (saved : List String) : Stage → Prop
  | .idle => True
  | .loaded _ paths => paths = dedupe saved
  | .truncated _ paths => paths = dedupe saved ∧ file = some []
  | .registered path => path ∈ saved

/-- Only one call at a time holds a list it has read, and the list is up to date. -/
structure Listed (codec : PathsCodec) (state : State) : Prop where
  one : ∀ id other, (state.stage id).snapshot ≠ none → (state.stage other).snapshot ≠ none →
    other = id
  fits : ∀ id, Fits state.file state.saved (state.stage id)
  file : (∀ id, (state.stage id).torn = false) → loadPaths codec state.file = dedupe state.saved
  answered : state.answered ⊆ state.saved

variable {codec : PathsCodec} {state next : State} {id : Nat} {stage : Stage}
  {file : Option (List UInt8)} {saved answered : List String}

theorem torn_of_snapshot (hnone : stage.snapshot = none) : stage.torn = false := by
  cases stage with
  | truncated => cases hnone
  | _ => rfl

theorem Fits.of_none (hfits : Fits state.file state.saved stage) (hnone : stage.snapshot = none)
    (hsaved : state.saved ⊆ saved) : Fits file saved stage := by
  cases stage with
  | idle => trivial
  | registered => exact hsaved hfits
  | loaded | truncated => cases hnone

theorem Listed.held (hlisted : Listed codec state) (hstage : state.stage id = stage)
    (hholds : stage.snapshot ≠ none) : Fits state.file state.saved stage ∧
      ∀ other, other ≠ id → (state.stage other).snapshot = none :=
  ⟨hstage ▸ hlisted.fits id, fun other hother =>
    of_not_not fun hsome => hother (hlisted.one id other (hstage ▸ hholds) hsome)⟩

theorem Listed.move (hlisted : Listed codec state)
    (hone : stage.snapshot ≠ none → ∀ other, other ≠ id → (state.stage other).snapshot = none)
    (hfits : Fits file saved stage)
    (hrest : ∀ other, other ≠ id → Fits file saved (state.stage other))
    (hfile : stage.torn = false → (∀ other, other ≠ id → (state.stage other).torn = false) →
      loadPaths codec file = dedupe saved) (hanswered : answered ⊆ saved) :
    Listed codec ⟨file, update state.stage id stage, saved, answered⟩ where
  one first other hfirst hother := by
    simp only [update_apply] at hfirst hother
    split at hfirst <;> split at hother
    next hsame hsame' => rw [hsame, hsame']
    next hsame hne => exact absurd (hone hfirst other hne) hother
    next hne hsame => exact absurd (hone hother first hne) hfirst
    · exact hlisted.one first other hfirst hother
  fits other := by
    dsimp only
    rw [update_apply]
    split
    · exact hfits
    next hne => exact hrest other hne
  file hwhole := by
    refine hfile ?_ fun other hne => ?_
    · have hself := hwhole id
      simpa only [update_self] using hself
    · have hkept := hwhole other
      simpa only [update_of_ne hne] using hkept
  answered := hanswered

theorem Listed.step {action : Action} (hlisted : Listed codec state)
    (hguard : Undisturbed state action) (hstep : step codec state action = some next) :
    Listed codec next := by
  cases action with
  | load id path =>
    rw [Repos.step] at hstep
    split at hstep <;> cases hstep
    have hnone := hlisted.file fun other => torn_of_snapshot (hguard other)
    exact hlisted.move (fun _ other _ => hguard other) hnone (fun other _ => hlisted.fits other)
      (fun _ _ => hnone) hlisted.answered
  | truncate id =>
    rw [Repos.step] at hstep
    split at hstep <;> cases hstep
    next path paths hstage =>
      obtain ⟨hpaths, halone⟩ := hlisted.held hstage nofun
      exact hlisted.move (fun _ => halone) ⟨hpaths, rfl⟩
        (fun other hne => (hlisted.fits other).of_none (halone other hne) fun _ h => h)
        nofun hlisted.answered
  | write id =>
    rw [Repos.step] at hstep
    split at hstep <;> cases hstep
    next path paths hstage =>
      obtain ⟨⟨rfl, hempty⟩, halone⟩ := hlisted.held hstage nofun
      have hsaved : state.saved ⊆ state.saved ++ [path] := subset_append_left _ _
      refine hlisted.move nofun (mem_append_right _ (mem_singleton_self path))
        (fun other hne => (hlisted.fits other).of_none (halone other hne) hsaved)
        (fun _ _ => ?_) fun _ h => hsaved (hlisted.answered h)
      rw [overwrite, hempty, getD_some, drop_nil, append_nil, loadPaths,
        bind_some, content, codec.parse_print, getD_some, dedupe_dedupe_concat]
  | fail id =>
    obtain ⟨hholds, hnext⟩ := ite_none_right_eq_some.mp hstep
    cases hnext
    refine hlisted.move nofun trivial (fun other _ => hlisted.fits other) (fun _ hwhole => ?_)
      hlisted.answered
    refine hlisted.file fun other => ?_
    by_cases hother : other = id
    · rw [hother]
      exact hguard
    · exact hwhole other hother
  | reply id ok =>
    rw [Repos.step] at hstep
    split at hstep <;> cases hstep
    next path hstage =>
      have hpath := hlisted.fits id
      rw [hstage] at hpath
      refine hlisted.move nofun trivial (fun other _ => hlisted.fits other) (fun _ hwhole => ?_) ?_
      · refine hlisted.file fun other => ?_
        by_cases hother : other = id
        · rw [hother, hstage]
          rfl
        · exact hwhole other hother
      · split
        · exact append_subset.mpr ⟨hlisted.answered, cons_subset.mpr ⟨hpath, nil_subset _⟩⟩
        · exact hlisted.answered
  | crash cut =>
    cases cut with
    | some cut =>
      rw [Repos.step] at hstep
      split at hstep <;> cases hstep
      next hstage =>
        have hwhole := hguard cut.1
        rw [hstage] at hwhole
        cases hwhole
    | none =>
      cases hstep
      exact ⟨fun _ _ h => absurd rfl h, fun _ => trivial, fun _ => hlisted.file hguard,
        hlisted.answered⟩

theorem Listed.remembered (hlisted : Listed codec state) : Remembered codec state := by
  intro hquiet
  have hfile := hlisted.file fun id => by rw [hquiet id]; rfl
  obtain ⟨hnodup, hmem, -⟩ := dedupe_spec state.saved
  rw [hfile]
  exact ⟨fun path hpath => count_eq_one_of_mem hnodup ((hmem path).mpr (hlisted.answered hpath)),
    List.Sublist.refl _⟩

theorem listed_start (codec : PathsCodec) : Listed codec start :=
  ⟨fun _ _ h => absurd rfl h, fun _ => trivial, fun _ => rfl, List.Subset.refl _⟩

/-- No registered path is forgotten in a run where registrations do not overlap and no save is
cut. -/
theorem paths_remembered {trace : List Action}
    (hguarded : Trace.Guarded (step codec) Undisturbed start trace)
    (hrun : Trace.run (step codec) start trace = some state) : Remembered codec state := by
  have hlisted := Trace.guarded_invariant
    (fun _ _ _ (h : Listed codec _) hguard hstep => h.step hguard hstep) (listed_start codec)
    hguarded hrun
  exact hlisted.remembered

section Sample

instance encodableChar : Encodable Char := .ofLeftInjection Char.toNat (some ∘ Char.ofNat)
  fun c => congrArg some c.ofNat_toNat

instance encodableString : Encodable String := .ofLeftInjection String.toList (some ∘ String.ofList)
  fun text => congrArg some text.ofList_toList

def sampleText (path : String) : List UInt8 :=
  Utf8.encode ("[\n  \"" ++ path ++ "\"\n]").toList

/-- The JSON text of two lists, and some text for every other. -/
def sampleCodec : PathsCodec where
  print paths :=
    if paths = ["/a"] then sampleText "/a"
    else if paths = ["/b"] then sampleText "/b"
    else 0 :: List.replicate (Encodable.encode paths) 0
  parse bytes :=
    if bytes = sampleText "/a" then some ["/a"]
    else if bytes = sampleText "/b" then some ["/b"]
    else Encodable.decode (bytes.length - 1)
  parse_print paths := by
    have hhead : ∀ rest, 0 :: rest ≠ sampleText "/a" ∧ 0 :: rest ≠ sampleText "/b" :=
      fun rest => ⟨nofun, nofun⟩
    split
    next hpaths => rw [if_pos rfl, hpaths]
    · split
      next hpaths => rw [if_neg (by decide), if_pos rfl, hpaths]
      · rw [if_neg (hhead _).1, if_neg (hhead _).2, length_cons, length_replicate,
          Nat.add_sub_cancel, Encodable.encodek]

theorem paths_remembered_once : ∃ final, Trace.run (step sampleCodec) start
    [.load 1 "/a", .truncate 1, .write 1, .reply 1 true] = some final ∧
      Remembered sampleCodec final := by
  refine ⟨_, rfl, @paths_remembered sampleCodec _
    [.load 1 "/a", .truncate 1, .write 1, .reply 1 true] ?_ rfl⟩
  exact ⟨fun _ => rfl, trivial, trivial, trivial, trivial⟩

/-- Two calls read the empty list, and the later save drops the earlier path. -/
theorem overlapping_add_forgotten : ∃ final, Trace.run (step sampleCodec) start
    [.load 1 "/a", .load 2 "/b", .truncate 1, .write 1, .reply 1 true, .truncate 2, .write 2,
      .reply 2 true] = some final ∧ ¬ Remembered sampleCodec final := by
  refine ⟨_, rfl, fun hremembered => ?_⟩
  have hquiet := hremembered fun
    | 0 | 1 | 2 | _ + 3 => rfl
  exact absurd (hquiet.1 "/a" mem_cons_self) (by decide)

end Sample

end Keel.Repos
