import Keel.Dsh.LocalFs

/-! # What the filesystem operations do to the disk

A write or an edit that fails leaves every file alone: at most directories were made where
nothing was. One that succeeds publishes its content at the target, over what its guard
admits, under the version it reports. Reading gives the bytes of the file that is there.
-/

namespace Keel.Fs

open Revisions Function Utf8 Option

section Effects

variable {io : Io} {disk made after : Disk} {target : FsTarget} {key : FsTargetKey}
  {author : Option CallId}

theorem Disk.store_put {node : Node} (hput : disk.put author key node = some after) :
    disk.store.put Node.version author key node = some after.store ∧
      after.denied = disk.denied := by
  obtain ⟨store, hstore, rfl⟩ := map_eq_some_iff.mp hput
  exact ⟨hstore, rfl⟩

theorem Disk.current_put {node : Node} (hput : disk.put author key node = some after) :
    after.current = update disk.current key (some node) :=
  Store.current_put (store_put hput).1

/-- Directories were made where nothing was, none of them at the target. -/
structure Directories (target : FsTargetKey) (disk made : Disk) : Prop where
  later : Store.Later Node.version disk.store made.store
  denied : made.denied = disk.denied
  target : made.current target = disk.current target
  kept : ∀ key node, disk.current key = some node → made.current key = some node
  added : ∀ key node, made.current key = some node →
    disk.current key = some node ∨ node.entryType = .directory
  traced : disk.store.Traced → made.store.Traced

namespace Directories

theorem refl (target : FsTargetKey) (disk : Disk) : Directories target disk disk where
  later := .refl disk.store
  denied := rfl
  target := rfl
  kept _ _ hcurrent := hcurrent
  added _ _ hcurrent := .inl hcurrent
  traced htraced := htraced

theorem trans {middle : Disk} (hfirst : Directories key disk middle)
    (hsecond : Directories key middle made) : Directories key disk made where
  later := hfirst.later.trans hsecond.later
  denied := hsecond.denied.trans hfirst.denied
  target := hsecond.target.trans hfirst.target
  kept other node hcurrent := hsecond.kept other node (hfirst.kept other node hcurrent)
  added other node hcurrent := by
    cases hsecond.added other node hcurrent with
    | inl hmiddle => exact hfirst.added other node hmiddle
    | inr hdirectory => exact .inr hdirectory
  traced htraced := hsecond.traced (hfirst.traced htraced)

theorem put {other : FsTargetKey} {node : Node} (hother : other ≠ key)
    (habsent : disk.current other = none) (hdirectory : node.entryType = .directory)
    (hput : disk.put author other node = some made) : Directories key disk made where
  later := .put (Disk.store_put hput).1
  denied := (Disk.store_put hput).2
  target := by rw [Disk.current_put hput, update_of_ne hother.symm]
  kept third found hcurrent := by
    rw [Disk.current_put hput]
    have hne : third ≠ other := fun heq => by
      rw [heq, habsent] at hcurrent
      cases hcurrent
    rwa [update_of_ne hne]
  added third found hcurrent := by
    rw [Disk.current_put hput] at hcurrent
    by_cases heq : third = other
    · subst heq
      rw [update_self, some.injEq] at hcurrent
      exact .inr (hcurrent ▸ hdirectory)
    · rw [update_of_ne heq] at hcurrent
      exact .inl hcurrent
  traced htraced := htraced.put (Disk.store_put hput).1

theorem files (hmade : Directories key disk made) {other : FsTargetKey} {node : Node}
    (hfile : node.entryType = .file) :
    made.current other = some node ↔ disk.current other = some node := by
  constructor
  · intro hcurrent
    cases hmade.added other node hcurrent with
    | inl hbefore => exact hbefore
    | inr hdirectory => rw [hfile] at hdirectory; cases hdirectory
  · exact hmade.kept other node

end Directories

theorem makeDirs_directories {dirs : List (FsTargetKey × Node)}
    (hmade : disk.makeDirs key dirs = some made) : Directories key disk made := by
  induction dirs generalizing disk with
  | nil => exact Option.some.inj hmade ▸ .refl key disk
  | cons head rest ih =>
    obtain ⟨other, node⟩ := head
    rw [Disk.makeDirs] at hmade
    split at hmade
    next hfits =>
      split at hmade
      · cases hmade
      next middle hput =>
        exact (Directories.put hfits.1 hfits.2.1 hfits.2.2 hput).trans (ih hmade)
    · cases hmade

/-- The write took place: the file was put where the directories had been made. -/
def Published (io : Io) (author : CallId) (key : FsTargetKey) (content : List Char)
    (disk after : Disk) : Prop :=
  ∃ made, Directories key disk made ∧
    made.put (some author) key ⟨io.version, .file, encode content⟩ = some after

namespace Published

variable {author : CallId} {content : List Char}

variable (hpublished : Published io author key content disk after)
include hpublished

theorem later : Store.Later Node.version disk.store after.store := by
  obtain ⟨made, hdirs, hput⟩ := hpublished
  exact hdirs.later.trans (.put (Disk.store_put hput).1)

theorem denied : after.denied = disk.denied := by
  obtain ⟨made, hdirs, hput⟩ := hpublished
  exact (Disk.store_put hput).2.trans hdirs.denied

theorem current : after.current key = some ⟨io.version, .file, encode content⟩ := by
  obtain ⟨made, hdirs, hput⟩ := hpublished
  rw [Disk.current_put hput, update_self]

theorem authored :
    ⟨key, ⟨io.version, .file, encode content⟩, some author⟩ ∈ after.store.history := by
  obtain ⟨made, hdirs, hput⟩ := hpublished
  rw [Store.history_put (Disk.store_put hput).1]
  exact List.mem_append_right _ List.mem_cons_self

theorem traced (htraced : disk.store.Traced) : after.store.Traced := by
  obtain ⟨made, hdirs, hput⟩ := hpublished
  exact (hdirs.traced htraced).put (Disk.store_put hput).1

theorem files {other : FsTargetKey} (hother : other ≠ key) {node : Node}
    (hfile : node.entryType = .file) :
    after.current other = some node ↔ disk.current other = some node := by
  obtain ⟨made, hdirs, hput⟩ := hpublished
  rw [Disk.current_put hput, update_of_ne hother]
  exact hdirs.files hfile

end Published

variable {createIfAbsent : Option String} {existing : Option Node}

/-- A link or a rename leaves the disk alone or puts the file; a link only where nothing was. -/
theorem publish_cases {author : CallId} {content : List Char} {result : Except FsError Unit}
    (hpublish : publish io disk author key content createIfAbsent = some (after, result)) :
    (∃ error, result = .error error ∧ after = disk) ∨
      result = .ok () ∧ (createIfAbsent.isSome → disk.current key = none) ∧
        disk.put (some author) key ⟨io.version, .file, encode content⟩ = some after := by
  cases createIfAbsent with
  | none =>
    rw [publish] at hpublish
    split at hpublish
    next fault hfault =>
      cases hpublish
      exact .inl ⟨_, rfl, rfl⟩
    next hfault =>
      obtain ⟨put, hput, heq⟩ := map_eq_some_iff.mp hpublish
      cases heq
      exact .inr ⟨rfl, nofun, hput⟩
  | some displayPath =>
    rw [publish] at hpublish
    split at hpublish
    next fault hfault =>
      cases hpublish
      exact .inl ⟨_, rfl, rfl⟩
    next hfault =>
      obtain ⟨put, hput, heq⟩ := map_eq_some_iff.mp hpublish
      cases heq
      refine .inr ⟨rfl, fun _ => ?_, hput⟩
      rw [linkFault] at hfault
      split at hfault
      · cases hfault
      · split at hfault
        · cases hfault
        next hnobody => simpa using fun hsome => hnobody (.inl hsome)

theorem writeFileAtomic_cases {author : CallId} {content : List Char} {result : Except FsError Unit}
    (hwrite : writeFileAtomic io disk author key content createIfAbsent = some (after, result)) :
    (∃ error, result = .error error ∧ Directories key disk after) ∨
      result = .ok () ∧ (createIfAbsent.isSome → disk.current key = none) ∧
        Published io author key content disk after := by
  rw [writeFileAtomic] at hwrite
  split at hwrite
  · cases hwrite
  next made hmade =>
    have hdirs := makeDirs_directories hmade
    split at hwrite
    next fault _ => cases hwrite; exact .inl ⟨_, rfl, hdirs⟩
    next fault => cases hwrite; exact .inl ⟨_, rfl, hdirs⟩
    · cases publish_cases hwrite with
      | inl hfailed =>
        obtain ⟨error, hresult, rfl⟩ := hfailed
        exact .inl ⟨error, hresult, hdirs⟩
      | inr hdone =>
        obtain ⟨hresult, hlink, hput⟩ := hdone
        exact .inr ⟨hresult, fun hsome => hdirs.target ▸ hlink hsome, ⟨made, hdirs, hput⟩⟩

theorem writeFileAtomic_ok {author : CallId} {content : List Char}
    (hwrite : writeFileAtomic io disk author key content createIfAbsent = some (after, .ok ())) :
    Published io author key content disk after := by
  cases writeFileAtomic_cases hwrite with
  | inl hfailed => obtain ⟨_, hresult, _⟩ := hfailed; cases hresult
  | inr hdone => exact hdone.2.2

theorem writeFileAtomic_error {author : CallId} {content : List Char} {error : FsError}
    (hwrite : writeFileAtomic io disk author key content createIfAbsent =
      some (after, .error error)) : Directories key disk after := by
  cases writeFileAtomic_cases hwrite with
  | inl hfailed => obtain ⟨_, _, hdirs⟩ := hfailed; exact hdirs
  | inr hdone => cases hdone.1

/-- The target is as the guard wants it. -/
def Admits (existing : Option Node) : Option FsWriteIntent → Prop
  | some (.replaceIfVersion version) =>
    ∃ node, existing = some node ∧ node.entryType = .file ∧ node.version = version
  | some .createIfAbsent => existing = none
  | none => ∀ node, existing = some node → node.entryType = .file

theorem admits_of_admitWrite {expected : Option FsWriteIntent}
    (haccepted : admitWrite target expected existing = .ok ()) : Admits existing expected := by
  cases existing with
  | none =>
    cases expected with
    | none => exact nofun
    | some intent =>
      cases intent with
      | createIfAbsent => rfl
      | replaceIfVersion version => simp [admitWrite] at haccepted
  | some node =>
    unfold admitWrite at haccepted
    dsimp only at haccepted
    split at haccepted
    · cases haccepted
    next hfile =>
      rw [ne_eq, not_not] at hfile
      split at haccepted
      next version =>
        split at haccepted
        · cases haccepted
        next hversion => exact ⟨node, rfl, hfile, not_not.mp hversion⟩
      · cases haccepted
      · intro other hother
        exact Option.some.inj hother ▸ hfile

theorem probe_eq_ok (hprobe : disk.probe key = .ok existing) :
    disk.denied key = none ∧ disk.current key = existing := by
  rw [Disk.probe] at hprobe
  split at hprobe
  · cases hprobe
  next hdenied => exact ⟨hdenied, Except.ok.inj hprobe⟩

/-- What was just published is found, where the target could be looked up before. -/
theorem Published.version_ok {author : CallId} {content : List Char}
    (hpublished : Published io author key content disk after) (hdenied : disk.denied key = none) :
    versionAfterWrite after key = .ok io.version := by
  have hprobe : after.probe key = .ok (some ⟨io.version, .file, encode content⟩) := by
    rw [Disk.probe, hpublished.denied, hdenied, hpublished.current]
  rw [versionAfterWrite, hprobe]

/-- A write fails and leaves every file alone, or publishes the content over what its guard
admits and reports the version it published. -/
theorem writeText_cases {fs : LocalFileSystem} {author : CallId} {content : List Char}
    {expected : Option FsWriteIntent} {result : Except FsError FsWriteOutcome}
    (hwrite : writeText io disk target fs author content expected = some (after, result)) :
    (∃ error, result = .error error ∧ Directories target.targetKey disk after) ∨
      ∃ outcome, result = .ok outcome ∧ outcome.version = io.version ∧
        Admits (disk.current target.targetKey) expected ∧
        Published io author target.targetKey content disk after := by
  have hsame : Directories target.targetKey disk disk := .refl _ _
  rw [writeText] at hwrite
  split at hwrite
  · cases hwrite; exact .inl ⟨_, rfl, hsame⟩
  · split at hwrite
    · cases hwrite; exact .inl ⟨_, rfl, hsame⟩
    next existing hprobe =>
      obtain ⟨hdenied, hcurrent⟩ := probe_eq_ok hprobe
      split at hwrite
      · cases hwrite; exact .inl ⟨_, rfl, hsame⟩
      next haccepted =>
        split at hwrite
        · cases hwrite
        next hfailed =>
          cases hwrite
          exact .inl ⟨_, rfl, writeFileAtomic_error hfailed⟩
        next hdone =>
          have hpublished := writeFileAtomic_ok hdone
          rw [hpublished.version_ok hdenied] at hwrite
          cases hwrite
          exact .inr ⟨_, rfl, rfl, hcurrent ▸ admits_of_admitWrite haccepted, hpublished⟩

/-- The file that is there is edited as planned. -/
structure Planned (disk : Disk) (target : FsTarget) (edit : FsEditRequest) (plan : EditPlan) :
    Prop where
  raw : ∃ node, disk.current target.targetKey = some node ∧ node.entryType = .file ∧
    decode node.bytes = some plan.raw
  content : plan.content = normalizeLineEndings plan.raw
  edited : ∃ count, applyLiteralEdit plan.content edit.oldString edit.newString edit.replaceAll
    target.displayPath = .ok (plan.edited, count)

theorem readRaw_ok {verb : String} {raw : List UInt8}
    (hread : readRaw io disk target verb = .ok raw) :
    ∃ node, disk.current target.targetKey = some node ∧ node.entryType = .file ∧
      node.bytes = raw := by
  rw [readRaw] at hread
  split at hread
  · cases hread
  · cases hread
  next node hprobe =>
    split at hread
    · cases hread
    next hfile =>
      split at hread
      · cases hread
      · exact ⟨node, (probe_eq_ok hprobe).2, not_not.mp hfile, Except.ok.inj hread⟩

theorem readText_ok {text : List Char} (hread : readText io disk target = .ok text) :
    ∃ node, disk.current target.targetKey = some node ∧ node.entryType = .file ∧
      node.bytes = encode text := by
  rw [readText] at hread
  split at hread
  · cases hread
  · split at hread
    · cases hread
    next raw hraw =>
      obtain ⟨node, hcurrent, hfile, hbytes⟩ := readRaw_ok hraw
      split at hread
      · cases hread
      · split at hread
        · cases hread
        next hdecode =>
          cases hread
          exact ⟨node, hcurrent, hfile, hbytes.trans (decode_eq_some_iff.1 hdecode)⟩

theorem planEdit_ok {edit : FsEditRequest} {plan : EditPlan}
    (hplan : planEdit io disk target edit = .ok plan) : Planned disk target edit plan := by
  rw [planEdit] at hplan
  split at hplan
  · cases hplan
  next raw hraw =>
    obtain ⟨node, hcurrent, hfile, rfl⟩ := readRaw_ok hraw
    split at hplan
    · cases hplan
    · split at hplan
      · cases hplan
      next text hdecode =>
        split at hplan
        · cases hplan
        next edited count hedited =>
          cases hplan
          exact ⟨⟨node, hcurrent, hfile, hdecode⟩, rfl, count, hedited⟩

theorem admitEdit_ok {expected : Option FsVersion}
    (haccepted : admitEdit target expected existing = .ok ()) :
    ∃ node, existing = some node ∧ node.entryType = .file ∧
      ∀ version, expected = some version → node.version = version := by
  cases existing with
  | none => cases haccepted
  | some node =>
    unfold admitEdit at haccepted
    dsimp only at haccepted
    split at haccepted
    · cases haccepted
    next hfile =>
      refine ⟨node, rfl, not_not.mp hfile, ?_⟩
      intro version hexpected
      subst hexpected
      simp only at haccepted
      split at haccepted
      · cases haccepted
      next hversion => exact not_not.mp hversion

/-- An edit fails and leaves every file alone, or publishes the edited file over the version
its guard names and reports the version it published. -/
theorem editText_cases {author : CallId} {edit : FsEditRequest} {expected : Option FsVersion}
    {result : Except FsError FsEditOutcome}
    (hedit : editText io disk target author edit expected = some (after, result)) :
    (∃ error, result = .error error ∧ Directories target.targetKey disk after) ∨
      ∃ plan, result = .ok ⟨io.version, plan.content, plan.edited⟩ ∧
        Planned disk target edit plan ∧
        (∀ version, expected = some version →
          ∃ node, disk.current target.targetKey = some node ∧ node.version = version) ∧
        Published io author target.targetKey plan.stored disk after := by
  have hsame : Directories target.targetKey disk disk := .refl _ _
  rw [editText] at hedit
  split at hedit
  · cases hedit; exact .inl ⟨_, rfl, hsame⟩
  · split at hedit
    · cases hedit; exact .inl ⟨_, rfl, hsame⟩
    next existing hprobe =>
      obtain ⟨hdenied, hcurrent⟩ := probe_eq_ok hprobe
      split at hedit
      · cases hedit; exact .inl ⟨_, rfl, hsame⟩
      next haccepted =>
        obtain ⟨node, hnode, _, hversion⟩ := admitEdit_ok haccepted
        split at hedit
        · cases hedit; exact .inl ⟨_, rfl, hsame⟩
        next plan hplan =>
          split at hedit
          · cases hedit
          next hfailed =>
            cases hedit
            exact .inl ⟨_, rfl, writeFileAtomic_error hfailed⟩
          next hdone =>
            have hpublished := writeFileAtomic_ok hdone
            rw [hpublished.version_ok hdenied] at hedit
            cases hedit
            exact .inr ⟨plan, rfl, planEdit_ok hplan,
              fun version hexpected => ⟨node, hcurrent.trans hnode, hversion version hexpected⟩,
              hpublished⟩

end Effects

end Keel.Fs
