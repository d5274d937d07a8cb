import Std.Data.ExtTreeMap
import Mathlib.Data.List.DropRight
import Keel.Foundation.Trace

/-! # Publishing the diffs of checkouts

The chats of a device are grouped by their checkout. A task for each checkout captures its working
tree, and publishes a snapshot whose checksum is not the last one: to the watch of all diffs, and to
the edge once for each chat. The chat list of a checkout may change between any two steps of its
task. A checkout without chats is closed, but a sync that is under way goes on.

The watchers only kick a task, which the engine may do at any time; what a capture reads is given.
-/

namespace Keel

open List

structure CheckoutIdentity where
  id : String
  root : String

structure Chat where
  id : String
  deviceId : String
  cwd : Option String
  checkoutId : Option String
  branch : Option String
deriving DecidableEq

structure DiffFileSummary where
  path : String
  oldPath : Option String
  status : String
  additions : UInt32
  deletions : UInt32
  binary : Bool

/-- A checkout's working tree. -/
structure DiffSnapshot where
  branch : String
  headSha : Option String
  patch : String
  files : List DiffFileSummary
  additions : UInt32
  deletions : UInt32
  truncated : Bool
  checksum : String

/-- What the edge keeps for a chat. -/
structure DiffSidecar where
  chatId : String
  deviceId : String
  checkoutPath : String
  branch : Option String
  headSha : Option String
  patch : String
  files : List DiffFileSummary
  additions : UInt32
  deletions : UInt32
  truncated : Bool
  publishedAt : Int

structure CheckoutDiff where
  checkoutId : String
  deviceId : String
  cwd : String
  patch : String
  files : List DiffFileSummary
  additions : UInt32
  deletions : UInt32
  truncated : Bool
  checksum : String
  updatedAt : Int

/-- How far a sync of a checkout has got. -/
inductive SyncPhase where
  | captured (snapshot : DiffSnapshot)
  /-- The sync has its copy of the chat list. -/
  | read (snapshot : DiffSnapshot) (chats : List Chat)
  /-- The checksum is new and stored. -/
  | stored (snapshot : DiffSnapshot) (chats : List Chat)
  /-- The checkout is open. -/
  | checked (snapshot : DiffSnapshot) (chats : List Chat)
  | posting (snapshot : DiffSnapshot) (chats : List Chat)

structure CheckoutEntry where
  identity : CheckoutIdentity
  chats : List Chat
  /-- The last published checksum. -/
  checksum : Option String
  kicked : Bool
  sync : Option SyncPhase

/-- A write to a chat's row. -/
inductive ChatWrite where
  | checkout (chatId checkoutId : String)
  | branch (chatId branch : String)

structure CheckoutDiffSync where
  entries : Std.ExtTreeMap String CheckoutEntry compare := ∅
  /-- The closed checkouts whose sync is under way. -/
  closed : List CheckoutEntry := []
  diffs : List CheckoutDiff := []
  rows : List ChatWrite := []
  /-- The requests to the edge, each with its address. -/
  posts : List (String × DiffSidecar) := []

/-- The checkouts that have chats, with them. -/
abbrev ChatGroups := Std.ExtTreeMap String (CheckoutIdentity × List Chat) compare

inductive CheckoutAction where
  /-- The chats of the workspace change, or a repair is due. -/
  | reconcile (identify : String → Option CheckoutIdentity) (chats : List Chat)
  /-- A watcher or a repair asks for a sync. -/
  | kick (checkoutId : String)
  | capture (checkoutId : String) (snapshot : DiffSnapshot)
  /-- The sync of an open checkout takes its next step. -/
  | advance (checkoutId : String) (now : Int)
  /-- The sync of a closed checkout does. -/
  | advanceClosed (index : Nat) (now : Int)

section Grouping

variable (deviceId : String) (identify : String → Option CheckoutIdentity)

/-- The checkout that a chat of this device works in. -/
def Chat.identity (chat : Chat) : Option CheckoutIdentity :=
  if chat.deviceId ≠ deviceId then none else chat.cwd.bind identify

def ChatGroups.push (groups : ChatGroups) (chat : Chat) : ChatGroups :=
  match chat.identity deviceId identify with
  | none => groups
  | some identity =>
    groups.alter identity.id fun group =>
      match group with
      | none => some (identity, [chat])
      | some (first, held) => some (first, held ++ [chat])

def groupChats (chats : List Chat) : ChatGroups :=
  chats.foldl (ChatGroups.push deviceId identify) ∅

def checkoutWrites (chats : List Chat) : List ChatWrite :=
  chats.filterMap fun chat =>
    match chat.identity deviceId identify with
    | none => none
    | some identity =>
      if chat.checkoutId ≠ some identity.id then some (.checkout chat.id identity.id) else none

end Grouping

/-- The watch of all diffs with one replaced or inserted. -/
def publishWatchWith (live : String → Bool) (diffs : List CheckoutDiff)
    (updated : Option CheckoutDiff) : List CheckoutDiff :=
  let kept := diffs.filter fun diff => live diff.checkoutId
  let replaced :=
    match updated with
    | none => kept
    | some updated =>
      if kept.any fun diff => diff.checkoutId = updated.checkoutId then
        kept.replaceF fun diff => if diff.checkoutId = updated.checkoutId then some updated
          else none
      else kept ++ [updated]
  replaced.mergeSort fun first second => decide (first.checkoutId ≤ second.checkoutId)

def sidecarUrl (url chatId : String) : String :=
  String.ofList (url.toList.rdropWhile fun c => c = '/') ++ "/diff/" ++ chatId

namespace CheckoutEntry

variable (deviceId : String) (entry : CheckoutEntry) (now : Int)

def diff (snapshot : DiffSnapshot) : CheckoutDiff where
  checkoutId := entry.identity.id
  deviceId := deviceId
  cwd := entry.identity.root
  patch := snapshot.patch
  files := snapshot.files
  additions := snapshot.additions
  deletions := snapshot.deletions
  truncated := snapshot.truncated
  checksum := snapshot.checksum
  updatedAt := now

def sidecar (snapshot : DiffSnapshot) (chatId : String) : DiffSidecar where
  chatId := chatId
  deviceId := deviceId
  checkoutPath := entry.identity.root
  branch := some snapshot.branch
  headSha := snapshot.headSha
  patch := snapshot.patch
  files := snapshot.files
  additions := snapshot.additions
  deletions := snapshot.deletions
  truncated := snapshot.truncated
  publishedAt := now

/-- The rows of another branch than the checkout's. -/
def branchWrites (snapshot : DiffSnapshot) : List ChatWrite :=
  entry.chats.filterMap fun chat =>
    if chat.branch ≠ some snapshot.branch then some (.branch chat.id snapshot.branch) else none

/-- An entry after a reconcile, kicked for a chat that it did not hold. -/
def regroup (chats : List Chat) : CheckoutEntry :=
  { entry with
    chats
    kicked := entry.kicked || chats.any fun chat => chat.id ∉ entry.chats.map Chat.id }

/-- An entry for a checkout that had no chats. -/
def add (identity : CheckoutIdentity) (chats : List Chat) : CheckoutEntry :=
  { identity, chats, checksum := none, kicked := true, sync := none }

end CheckoutEntry

namespace CheckoutDiffSync

variable (deviceId : String) (edge : Option String)

def reconcile (state : CheckoutDiffSync) (identify : String → Option CheckoutIdentity)
    (chats : List Chat) : CheckoutDiffSync :=
  let groups := groupChats deviceId identify chats
  let removed := state.entries.toList.filter fun entry => !groups.contains entry.1
  { state with
    entries := groups.map fun checkoutId group =>
      match state.entries[checkoutId]? with
      | some entry => entry.regroup group.2
      | none => CheckoutEntry.add group.1 group.2
    closed := state.closed ++ (removed.map Prod.snd).filter fun entry => entry.sync.isSome
    diffs := if removed.isEmpty then state.diffs
      else publishWatchWith (fun checkoutId => state.entries.contains checkoutId &&
        groups.contains checkoutId) state.diffs none
    rows := state.rows ++ checkoutWrites deviceId identify chats }

/-- One step of an entry's sync, up to the next point where the chat list may change. -/
def syncEntry (state : CheckoutDiffSync) (entry : CheckoutEntry) (now : Int) :
    Option (CheckoutDiffSync × CheckoutEntry) :=
  match entry.sync with
  | none => none
  | some (.captured snapshot) =>
    some ({ state with rows := state.rows ++ entry.branchWrites snapshot },
      { entry with sync := some (.read snapshot entry.chats) })
  | some (.read snapshot chats) =>
    if entry.checksum = some snapshot.checksum then some (state, { entry with sync := none })
    else some (state, { entry with
      checksum := some snapshot.checksum
      sync := some (.stored snapshot chats) })
  | some (.stored snapshot chats) =>
    if state.entries.contains entry.identity.id then
      some (state, { entry with sync := some (.checked snapshot chats) })
    else some (state, { entry with sync := none })
  | some (.checked snapshot chats) =>
    some ({ state with
        diffs := publishWatchWith (fun checkoutId => state.entries.contains checkoutId)
          state.diffs (some (entry.diff deviceId now snapshot)) },
      { entry with sync := if edge.isSome then some (.posting snapshot chats) else none })
  | some (.posting _ []) => some (state, { entry with sync := none })
  | some (.posting snapshot (chat :: rest)) =>
    some ({ state with
        posts := state.posts ++ edge.toList.map fun url =>
          (sidecarUrl url chat.id, entry.sidecar deviceId now snapshot chat.id) },
      { entry with sync := some (.posting snapshot rest) })

def put (state : CheckoutDiffSync) (checkoutId : String) (entry : CheckoutEntry) :
    CheckoutDiffSync :=
  { state with entries := state.entries.insert checkoutId entry }

def step (state : CheckoutDiffSync) : CheckoutAction → Option CheckoutDiffSync
  | .reconcile identify chats => some (state.reconcile deviceId identify chats)
  | .kick checkoutId =>
    match state.entries[checkoutId]? with
    | none => none
    | some entry => some (state.put checkoutId { entry with kicked := true })
  | .capture checkoutId snapshot =>
    match state.entries[checkoutId]? with
    | none => none
    | some entry =>
      match entry.kicked, entry.sync with
      | true, none => some (state.put checkoutId
          { entry with kicked := false, sync := some (.captured snapshot) })
      | _, _ => none
  | .advance checkoutId now =>
    match state.entries[checkoutId]? with
    | none => none
    | some entry =>
      match state.syncEntry deviceId edge entry now with
      | none => none
      | some (state, entry) => some (state.put checkoutId entry)
  | .advanceClosed index now =>
    match state.closed[index]? with
    | none => none
    | some entry =>
      match state.syncEntry deviceId edge entry now with
      | none => none
      | some (state, entry) => some { state with closed := state.closed.set index entry }

/-- The edge has a sidecar of the checkout for the chat, with a snapshot of the checksum. -/
def Sent (url : String) (state : CheckoutDiffSync) (entry : CheckoutEntry)
    (checksum chatId : String) : Prop :=
  ∃ (carried : DiffSnapshot) (now : Int), carried.checksum = checksum ∧
    (sidecarUrl url chatId, entry.sidecar deviceId now carried chatId) ∈ state.posts

end CheckoutDiffSync

/-! ## Who has joined

What a run leaves out of the state: which chats the syncs of an open checkout have read with a
checksum that was new.
-/

/-- The checksum and the chats that a sync of the entry is about to store as new. -/
def CheckoutEntry.announces (entry : CheckoutEntry) : List (String × String) :=
  match entry.sync with
  | some (.read snapshot chats) =>
    if entry.checksum = some snapshot.checksum then []
    else chats.map fun chat => (snapshot.checksum, chat.id)
  | _ => []

/-- A run with the chats it has announced, each with its checkout and the checksum. -/
structure WatchedSync where
  sync : CheckoutDiffSync := {}
  announced : List (String × String × String) := []

namespace WatchedSync

variable (deviceId : String) (edge : Option String)

def announce (watched : WatchedSync) : CheckoutAction → List (String × String × String)
  | .reconcile identify chats => watched.announced.filter fun entry =>
    (groupChats deviceId identify chats).contains entry.1
  | .advance checkoutId _ =>
    match watched.sync.entries[checkoutId]? with
    | none => watched.announced
    | some entry => watched.announced ++ entry.announces.map fun pair => (checkoutId, pair)
  | .kick _ | .capture .. | .advanceClosed .. => watched.announced

def step (watched : WatchedSync) (action : CheckoutAction) : Option WatchedSync :=
  (watched.sync.step deviceId edge action).map fun sync =>
    { sync, announced := watched.announce deviceId action }

/-- The chats of a checkout that its sync has read with a checksum that is stored already, and that
have joined since it was stored. -/
def joined (watched : WatchedSync) (checkoutId : String) : List Chat :=
  match watched.sync.entries[checkoutId]? with
  | none => []
  | some entry =>
    match entry.sync with
    | some (.read snapshot chats) =>
      if entry.checksum = some snapshot.checksum then
        chats.filter fun chat => chat.id ∈ entry.chats.map Chat.id ∧
          (checkoutId, snapshot.checksum, chat.id) ∉ watched.announced
      else []
    | _ => []

/-- No sync passes over a chat that has joined. -/
def NoneJoined (watched : WatchedSync) : CheckoutAction → Prop
  | .advance checkoutId _ => watched.joined checkoutId = []
  | .reconcile .. | .kick _ | .capture .. | .advanceClosed .. => True

instance (watched : WatchedSync) : ∀ action, Decidable (watched.NoneJoined action)
  | .advance checkoutId _ => inferInstanceAs (Decidable (watched.joined checkoutId = []))
  | .reconcile .. | .kick _ | .capture .. | .advanceClosed .. => isTrue trivial

end WatchedSync

section Runs

variable {deviceId url : String} {identify : String → Option CheckoutIdentity}
  {state next : CheckoutDiffSync} {entry after : CheckoutEntry} {checkoutId : String} {now : Int}

/-- The checksum and the chats that a sync is yet to post. -/
def CheckoutEntry.pending (entry : CheckoutEntry) : List (String × String) :=
  match entry.sync with
  | some (.stored snapshot chats) | some (.checked snapshot chats)
  | some (.posting snapshot chats) => chats.map fun chat => (snapshot.checksum, chat.id)
  | _ => []

theorem groupChats_keyed (chats : List Chat) {identity : CheckoutIdentity} {held : List Chat}
    (hgroup : (groupChats deviceId identify chats)[checkoutId]? = some (identity, held)) :
    identity.id = checkoutId := by
  have hpush : ∀ (chats : List Chat) (groups : ChatGroups),
      (∀ id group, groups[id]? = some group → CheckoutIdentity.id group.1 = id) → ∀ id group,
        (chats.foldl (ChatGroups.push deviceId identify) groups)[id]? = some group →
          CheckoutIdentity.id group.1 = id := by
    intro chats
    induction chats with
    | nil => exact fun groups hgroups => hgroups
    | cons chat rest ih =>
      intro groups hgroups
      refine ih _ fun id group hfound => ?_
      rw [ChatGroups.push] at hfound
      split at hfound
      · exact hgroups id group hfound
      next identity _ =>
        rw [Std.ExtTreeMap.getElem?_alter] at hfound
        split at hfound
        next hsame =>
          have hid := Std.LawfulEqCmp.eq_of_compare hsame
          split at hfound
          · cases hfound
            exact hid
          next first held hheld =>
            cases hfound
            exact (hgroups _ _ hheld).trans hid
        · exact hgroups id group hfound
  exact hpush chats ∅ (by simp) checkoutId (identity, held) hgroup

/-- What one step of a sync does. -/
structure SyncAdvances (deviceId url : String) (state : CheckoutDiffSync) (entry : CheckoutEntry)
    (next : CheckoutDiffSync) (after : CheckoutEntry) : Prop where
  entries : next.entries = state.entries
  posts : state.posts ⊆ next.posts
  identity : after.identity = entry.identity
  chats : after.chats = entry.chats
  reaches : state.entries.contains entry.identity.id = true →
    ∀ pair, pair ∈ entry.pending ∨ pair ∈ entry.announces →
      pair ∈ after.pending ∨ next.Sent deviceId url entry pair.1 pair.2

theorem CheckoutDiffSync.syncEntry_advances
    (hsync : state.syncEntry deviceId (some url) entry now = some (next, after)) :
    SyncAdvances deviceId url state entry next after := by
  obtain ⟨identity, chats, checksum, kicked, sync⟩ := entry
  rw [syncEntry] at hsync
  cases sync with
  | none => cases hsync
  | some phase =>
    cases phase with
    | captured snapshot =>
      cases hsync
      refine ⟨rfl, List.Subset.refl _, rfl, rfl, fun _ pair hpair => ?_⟩
      simp [CheckoutEntry.pending, CheckoutEntry.announces] at hpair
    | read snapshot read =>
      dsimp only at hsync
      split at hsync
      next hsame =>
        cases hsync
        refine ⟨rfl, List.Subset.refl _, rfl, rfl, fun _ pair hpair => ?_⟩
        simp [CheckoutEntry.pending, CheckoutEntry.announces, hsame] at hpair
      next hnew =>
        cases hsync
        refine ⟨rfl, List.Subset.refl _, rfl, rfl, fun _ pair hpair => .inl ?_⟩
        simpa [CheckoutEntry.pending, CheckoutEntry.announces, hnew] using hpair
    | stored snapshot read =>
      dsimp only at hsync
      split at hsync
      · cases hsync
        refine ⟨rfl, List.Subset.refl _, rfl, rfl, fun _ pair hpair => .inl ?_⟩
        simpa [CheckoutEntry.pending, CheckoutEntry.announces] using hpair
      next hclosed =>
        cases hsync
        exact ⟨rfl, List.Subset.refl _, rfl, rfl, fun hopen => absurd hopen hclosed⟩
    | checked snapshot read =>
      cases hsync
      refine ⟨rfl, List.Subset.refl _, rfl, rfl, fun _ pair hpair => .inl ?_⟩
      simpa [CheckoutEntry.pending, CheckoutEntry.announces] using hpair
    | posting snapshot rest =>
      cases rest with
      | nil =>
        cases hsync
        refine ⟨rfl, List.Subset.refl _, rfl, rfl, fun _ pair hpair => ?_⟩
        simp [CheckoutEntry.pending, CheckoutEntry.announces] at hpair
      | cons chat rest =>
        cases hsync
        refine ⟨rfl, subset_append_left _ _, rfl, rfl, fun _ pair hpair => ?_⟩
        simp only [CheckoutEntry.pending, CheckoutEntry.announces, map_cons,
          mem_cons, not_mem_nil, or_false] at hpair
        rcases hpair with rfl | hlater
        · exact .inr ⟨snapshot, now, rfl, by simp [CheckoutEntry.sidecar]⟩
        · exact .inl hlater

/-- Every announced chat has its sidecar or is on the way to it. -/
structure WatchedSync.Reaches (deviceId url : String) (watched : WatchedSync) : Prop where
  keyed : ∀ id (entry : CheckoutEntry), watched.sync.entries[id]? = some entry →
    entry.identity.id = id
  reached : ∀ id pair, (id, pair) ∈ watched.announced → ∃ entry : CheckoutEntry,
    watched.sync.entries[id]? = some entry ∧
      (pair ∈ entry.pending ∨ watched.sync.Sent deviceId url entry pair.1 pair.2)

theorem CheckoutDiffSync.Sent.imp {checksum chatId : String}
    (hsent : state.Sent deviceId url entry checksum chatId) (hposts : state.posts ⊆ next.posts)
    (hidentity : after.identity = entry.identity) :
    next.Sent deviceId url after checksum chatId := by
  obtain ⟨carried, now, hchecksum, hmem⟩ := hsent
  refine ⟨carried, now, hchecksum, hposts ?_⟩
  rwa [CheckoutEntry.sidecar, hidentity]

theorem CheckoutDiffSync.Sent.chatId_mem {checksum chatId : String}
    (hsent : state.Sent deviceId url entry checksum chatId) :
    chatId ∈ state.posts.map fun post => post.2.chatId := by
  obtain ⟨carried, now, -, hmem⟩ := hsent
  exact mem_map.mpr ⟨_, hmem, rfl⟩

namespace WatchedSync

variable {watched later : WatchedSync}

theorem step_eq_some {edge : Option String} {action : CheckoutAction} :
    watched.step deviceId edge action = some later ↔
      watched.sync.step deviceId edge action = some later.sync ∧
        later.announced = watched.announce deviceId action := by
  rw [step, Option.map_eq_some_iff]
  constructor
  · rintro ⟨sync, hstep, rfl⟩
    exact ⟨hstep, rfl⟩
  · rintro ⟨hstep, hannounced⟩
    exact ⟨later.sync, hstep, by rw [← hannounced]⟩

section
variable (hreaches : Reaches deviceId url watched)
include hreaches

theorem Reaches.put (hentry : watched.sync.entries[checkoutId]? = some entry)
    (hidentity : after.identity = entry.identity) (hpending : entry.pending ⊆ after.pending) :
    Reaches deviceId url { watched with sync := watched.sync.put checkoutId after } := by
  refine ⟨fun id found hfound => ?_, fun id pair hpair => ?_⟩
  · rw [CheckoutDiffSync.put, Std.ExtTreeMap.getElem?_insert] at hfound
    split at hfound
    next hsame =>
      cases hfound
      rw [hidentity, hreaches.keyed _ _ hentry]
      exact Std.LawfulEqCmp.eq_of_compare hsame
    · exact hreaches.keyed id found hfound
  · obtain ⟨found, hfound, howed⟩ := hreaches.reached id pair hpair
    rw [CheckoutDiffSync.put]
    simp only [Std.ExtTreeMap.getElem?_insert]
    split
    next hsame =>
      obtain rfl := Std.LawfulEqCmp.eq_of_compare hsame
      obtain rfl := Option.mem_unique hentry hfound
      refine ⟨after, rfl, howed.imp (fun hmem => hpending hmem) fun hsent => ?_⟩
      exact hsent.imp (List.Subset.refl _) hidentity
    · exact ⟨found, hfound, howed⟩

theorem Reaches.reconcile (chats : List Chat) : Reaches deviceId url
      { sync := watched.sync.reconcile deviceId identify chats
        announced := watched.announce deviceId (.reconcile identify chats) } := by
  refine ⟨fun id found hfound => ?_, fun id pair hpair => ?_⟩
  · rw [CheckoutDiffSync.reconcile, Std.ExtTreeMap.getElem?_map, Option.map_eq_some_iff] at hfound
    obtain ⟨⟨identity, held⟩, hgroup, hfound⟩ := hfound
    cases hentry : watched.sync.entries[id]? with
    | none =>
      rw [hentry] at hfound
      obtain rfl := hfound
      exact groupChats_keyed chats hgroup
    | some entry =>
      rw [hentry] at hfound
      obtain rfl := hfound
      exact hreaches.keyed id entry hentry
  · obtain ⟨hpair, hopen⟩ := mem_filter.mp hpair
    obtain ⟨entry, hentry, howed⟩ := hreaches.reached id pair hpair
    rw [Std.ExtTreeMap.contains_eq_isSome_getElem?] at hopen
    obtain ⟨group, hgroup⟩ := Option.isSome_iff_exists.mp hopen
    refine ⟨entry.regroup group.2, ?_, howed⟩
    rw [CheckoutDiffSync.reconcile, Std.ExtTreeMap.getElem?_map, hgroup, Option.map_some, hentry]

/-- A step of an open checkout's sync sends what it owes, or still owes it. -/
theorem Reaches.advance (hentry : watched.sync.entries[checkoutId]? = some entry)
    (hsync : watched.sync.syncEntry deviceId (some url) entry now = some (next, after)) :
    Reaches deviceId url
      { sync := next.put checkoutId after
        announced := watched.announce deviceId (.advance checkoutId now) } := by
  obtain ⟨hentries, hposts, hidentity, -, hreach⟩ := CheckoutDiffSync.syncEntry_advances hsync
  have hkey := hreaches.keyed _ _ hentry
  have hopen : watched.sync.entries.contains entry.identity.id = true := by
    rw [hkey, Std.ExtTreeMap.contains_eq_isSome_getElem?, hentry]
    rfl
  refine ⟨fun id found hfound => ?_, fun id pair hpair => ?_⟩
  · rw [CheckoutDiffSync.put, Std.ExtTreeMap.getElem?_insert] at hfound
    split at hfound
    next hsame =>
      cases hfound
      rw [hidentity, hkey]
      exact Std.LawfulEqCmp.eq_of_compare hsame
    · rw [hentries] at hfound
      exact hreaches.keyed id found hfound
  · rw [CheckoutDiffSync.put]
    simp only [Std.ExtTreeMap.getElem?_insert, hentries]
    rw [announce, hentry, mem_append] at hpair
    rcases hpair with hpair | hnew
    · obtain ⟨found, hfound, howed⟩ := hreaches.reached id pair hpair
      split
      next hsame =>
        obtain rfl := Std.LawfulEqCmp.eq_of_compare hsame
        obtain rfl := Option.mem_unique hentry hfound
        refine ⟨after, rfl, ?_⟩
        rcases howed with hpending | hsent
        · exact (hreach hopen pair (.inl hpending)).imp_right fun hsent =>
            hsent.imp (List.Subset.refl _) hidentity
        · exact .inr (hsent.imp hposts hidentity)
      · refine ⟨found, hfound, howed.imp_right fun hsent => ?_⟩
        exact hsent.imp hposts rfl
    · obtain ⟨pair, hannounced, heq⟩ := mem_map.mp hnew
      cases heq
      rw [if_pos Std.ReflCmp.compare_self]
      exact ⟨after, rfl, (hreach hopen pair (.inr hannounced)).imp_right fun hsent =>
        hsent.imp (List.Subset.refl _) hidentity⟩

end

theorem Reaches.step (hreaches : Reaches deviceId url watched) {action : CheckoutAction}
    (hstep : watched.step deviceId (some url) action = some later) :
    Reaches deviceId url later := by
  obtain ⟨hsync, hannounced⟩ := step_eq_some.1 hstep
  obtain ⟨sync, announced⟩ := later
  obtain rfl : announced = _ := hannounced
  cases action with
  | reconcile identify chats =>
    cases hsync
    exact hreaches.reconcile chats
  | kick checkoutId =>
    simp only [CheckoutDiffSync.step] at hsync
    split at hsync
    · cases hsync
    next entry hentry =>
      cases hsync
      exact hreaches.put hentry rfl (List.Subset.refl _)
  | capture checkoutId snapshot =>
    simp only [CheckoutDiffSync.step] at hsync
    split at hsync
    · cases hsync
    next entry hentry =>
      split at hsync
      next hkicked hidle =>
        cases hsync
        exact hreaches.put hentry rfl (by simp [CheckoutEntry.pending, hidle])
      · cases hsync
  | advance checkoutId now =>
    simp only [CheckoutDiffSync.step] at hsync
    split at hsync
    · cases hsync
    next entry hentry =>
      split at hsync
      · cases hsync
      next next after hentry' =>
        cases hsync
        exact hreaches.advance hentry hentry'
  | advanceClosed index now =>
    simp only [CheckoutDiffSync.step] at hsync
    split at hsync
    · cases hsync
    next entry hentry =>
      split at hsync
      · cases hsync
      next next after hentry' =>
        cases hsync
        obtain ⟨hentries, hposts, -, -, -⟩ := CheckoutDiffSync.syncEntry_advances hentry'
        refine ⟨fun id found hfound => hreaches.keyed id found (hentries ▸ hfound),
          fun id pair hpair => ?_⟩
        obtain ⟨found, hfound, howed⟩ := hreaches.reached id pair hpair
        exact ⟨found, hentries ▸ hfound, howed.imp_right fun hsent => hsent.imp hposts rfl⟩

/-- The entry's sync captured the snapshot and has announced it to the chats, or is about to. -/
def Follows (announced : List (String × String × String)) (checkoutId : String)
    (snapshot : DiffSnapshot) (entry : CheckoutEntry) : Prop :=
  match entry.sync with
  | some (.captured captured) => captured = snapshot
  | some (.read captured chats) => captured = snapshot ∧ chats = entry.chats
  | _ => entry.checksum = some snapshot.checksum ∧
      ∀ chat ∈ entry.chats, (checkoutId, snapshot.checksum, chat.id) ∈ announced

/-- The chats stay as they are and no other sync of the checkout begins. -/
def Undisturbed (checkoutId : String) : CheckoutAction → Prop
  | .reconcile .. => False
  | .capture id _ => id ≠ checkoutId
  | .kick _ | .advance .. | .advanceClosed .. => True

variable {snapshot : DiffSnapshot}

theorem follows_capture (hsync : watched.sync.step deviceId (some url)
      (.capture checkoutId snapshot) = some next) (announced : List (String × String × String)) :
    ∃ entry, next.entries[checkoutId]? = some entry ∧
      Follows announced checkoutId snapshot entry := by
  simp only [CheckoutDiffSync.step] at hsync
  split at hsync
  · cases hsync
  next entry hentry =>
    split at hsync
    · cases hsync
      exact ⟨_, Std.ExtTreeMap.getElem?_insert_self, rfl⟩
    · cases hsync

/-- One step of the sync, where no chat has joined since its checksum was stored. -/
theorem Follows.advance (hfollows : Follows watched.announced checkoutId snapshot entry)
    (hentry : watched.sync.entries[checkoutId]? = some entry)
    (hjoined : watched.NoneJoined (.advance checkoutId now))
    (hsync : watched.sync.syncEntry deviceId (some url) entry now = some (next, after)) :
    Follows (watched.announce deviceId (.advance checkoutId now)) checkoutId snapshot after := by
  simp only [NoneJoined, joined, hentry] at hjoined
  simp only [announce, hentry]
  obtain ⟨identity, chats, checksum, kicked, sync⟩ := entry
  rw [CheckoutDiffSync.syncEntry] at hsync
  cases sync with
  | none => cases hsync
  | some phase =>
    cases phase with
    | captured captured =>
      cases hsync
      exact ⟨hfollows, rfl⟩
    | read captured read =>
      obtain ⟨rfl, rfl⟩ := hfollows
      dsimp only at hsync hjoined
      split at hsync
      next hsame =>
        cases hsync
        refine ⟨hsame, fun chat hchat => mem_append_left _ ?_⟩
        rw [if_pos hsame, filter_eq_nil_iff] at hjoined
        have hhad := hjoined chat hchat
        rw [decide_eq_true_eq, not_and, not_not] at hhad
        exact hhad (mem_map_of_mem hchat)
      next hnew =>
        cases hsync
        refine ⟨rfl, fun chat hchat => mem_append_right _ ?_⟩
        simp only [CheckoutEntry.announces, if_neg hnew, map_map]
        exact mem_map_of_mem hchat
    | stored captured read =>
      obtain ⟨hchecksum, hannounced⟩ := hfollows
      dsimp only at hsync
      split at hsync
      · cases hsync
        exact ⟨hchecksum, fun chat hchat => mem_append_left _ (hannounced chat hchat)⟩
      · cases hsync
        exact ⟨hchecksum, fun chat hchat => mem_append_left _ (hannounced chat hchat)⟩
    | checked captured read =>
      obtain ⟨hchecksum, hannounced⟩ := hfollows
      cases hsync
      exact ⟨hchecksum, fun chat hchat => mem_append_left _ (hannounced chat hchat)⟩
    | posting captured rest =>
      obtain ⟨hchecksum, hannounced⟩ := hfollows
      cases rest with
      | nil | cons chat rest =>
        cases hsync
        exact ⟨hchecksum, fun chat hchat => mem_append_left _ (hannounced chat hchat)⟩

theorem Follows.mono {first second : List (String × String × String)}
    (hfollows : Follows first checkoutId snapshot entry) (hsub : first ⊆ second) :
    Follows second checkoutId snapshot entry := by
  unfold Follows at *
  split at hfollows
  · exact hfollows
  · exact hfollows
  · exact ⟨hfollows.1, fun chat hchat => hsub (hfollows.2 chat hchat)⟩

theorem put_other {other : String} {found : CheckoutEntry}
    (hentry : state.entries[checkoutId]? = some entry) (hother : other ≠ checkoutId) :
    (state.put other found).entries[checkoutId]? = some entry := by
  rw [CheckoutDiffSync.put, Std.ExtTreeMap.getElem?_insert, if_neg (by simpa using hother), hentry]

section
variable (hfollows : Follows watched.announced checkoutId snapshot entry)
    (hentry : watched.sync.entries[checkoutId]? = some entry)
include hfollows hentry

theorem follows_step {action : CheckoutAction} (haction : Undisturbed checkoutId action)
    (hjoined : watched.NoneJoined action)
    (hstep : watched.step deviceId (some url) action = some later) :
    ∃ found, later.sync.entries[checkoutId]? = some found ∧
      Follows later.announced checkoutId snapshot found := by
  obtain ⟨hsync, hannounced⟩ := step_eq_some.1 hstep
  obtain ⟨sync, announced⟩ := later
  obtain rfl : announced = _ := hannounced
  cases action with
  | reconcile identify chats => exact haction.elim
  | kick other =>
    simp only [CheckoutDiffSync.step] at hsync
    split at hsync
    · cases hsync
    next found hfound =>
      cases hsync
      by_cases hother : other = checkoutId
      · subst hother
        obtain rfl := Option.mem_unique hentry hfound
        exact ⟨_, Std.ExtTreeMap.getElem?_insert_self, hfollows⟩
      · exact ⟨entry, put_other hentry hother, hfollows⟩
  | capture other found =>
    simp only [CheckoutDiffSync.step] at hsync
    split at hsync
    · cases hsync
    · split at hsync
      · cases hsync
        exact ⟨entry, put_other hentry haction, hfollows⟩
      · cases hsync
  | advance other now =>
    simp only [CheckoutDiffSync.step] at hsync
    split at hsync
    · cases hsync
    next found hfound =>
      split at hsync
      · cases hsync
      next next after hafter =>
        cases hsync
        by_cases hother : other = checkoutId
        · subst hother
          obtain rfl := Option.mem_unique hentry hfound
          exact ⟨_, Std.ExtTreeMap.getElem?_insert_self, hfollows.advance hentry hjoined hafter⟩
        · have hentries := (CheckoutDiffSync.syncEntry_advances hafter).entries
          refine ⟨entry, put_other (hentries ▸ hentry) hother, hfollows.mono ?_⟩
          simp only [announce, hfound]
          exact subset_append_left _ _
  | advanceClosed index now =>
    simp only [CheckoutDiffSync.step] at hsync
    split at hsync
    · cases hsync
    next found hfound =>
      split at hsync
      · cases hsync
      next next after hafter =>
        cases hsync
        have hentries := (CheckoutDiffSync.syncEntry_advances hafter).entries
        exact ⟨entry, hentries ▸ hentry, hfollows⟩

theorem follows_run {trace : List CheckoutAction}
    (htrace : ∀ action ∈ trace, Undisturbed checkoutId action)
    (hjoined : Trace.Guarded (step deviceId (some url)) NoneJoined watched trace)
    (hrun : Trace.run (step deviceId (some url)) watched trace = some later) :
    ∃ found, later.sync.entries[checkoutId]? = some found ∧
      Follows later.announced checkoutId snapshot found := by
  induction trace generalizing watched entry with
  | nil =>
    obtain rfl : watched = later := by simpa using hrun
    exact ⟨entry, hentry, hfollows⟩
  | cons action rest ih =>
    obtain ⟨next, hstep, hrest⟩ := Trace.run_cons_eq_some.1 hrun
    obtain ⟨found, hfound, hnext⟩ :=
      follows_step hfollows hentry (htrace action mem_cons_self) hjoined.head hstep
    exact ih hnext hfound (fun other hother => htrace other (mem_cons_of_mem _ hother))
      (hjoined.tail hstep) hrest

end

theorem reaches_init : Reaches deviceId url {} :=
  ⟨fun id entry hentry => by simp at hentry, fun id pair hpair => absurd hpair not_mem_nil⟩

end WatchedSync

namespace CheckoutDiffSync

/-- A run of the service is a run in which the announced chats are watched. -/
theorem run_watched {edge : Option String} {watched : WatchedSync} {trace : List CheckoutAction}
    {final : CheckoutDiffSync}
    (hrun : Trace.run (step deviceId edge) watched.sync trace = some final) :
    ∃ last, Trace.run (WatchedSync.step deviceId edge) watched trace = some last ∧
      last.sync = final := by
  induction trace generalizing watched with
  | nil => exact ⟨watched, rfl, by simpa using hrun⟩
  | cons action rest ih =>
    obtain ⟨next, hstep, hrest⟩ := Trace.run_cons_eq_some.1 hrun
    obtain ⟨last, hlast, hsync⟩ :=
      @ih { sync := next, announced := watched.announce deviceId action } hrest
    exact ⟨last, Trace.run_cons_eq_some.2
      ⟨_, WatchedSync.step_eq_some.2 ⟨hstep, rfl⟩, hlast⟩, hsync⟩

/-- When the sync that follows the last reconcile has run, the edge has the checkout's snapshot for
each of its chats, if no sync whose checksum was stored already had read a chat that joined. -/
theorem sidecars_cover (deviceId url : String) (earlier later : List CheckoutAction)
    (checkoutId : String) (snapshot : DiffSnapshot)
    (hlater : ∀ action ∈ later, WatchedSync.Undisturbed checkoutId action)
    (hjoined : Trace.Guarded (WatchedSync.step deviceId (some url)) WatchedSync.NoneJoined {}
      (earlier ++ .capture checkoutId snapshot :: later))
    {final : CheckoutDiffSync}
    (hrun : Trace.run (step deviceId (some url)) {}
      (earlier ++ .capture checkoutId snapshot :: later) = some final)
    {entry : CheckoutEntry} (hentry : final.entries[checkoutId]? = some entry)
    (hdone : entry.sync = none) :
    entry.checksum = some snapshot.checksum ∧
      ∀ chat ∈ entry.chats, final.Sent deviceId url entry snapshot.checksum chat.id := by
  obtain ⟨last, hlast, rfl⟩ := @run_watched deviceId (some url) {} _ _ hrun
  have hreaches : WatchedSync.Reaches deviceId url last :=
    Trace.run_invariant (fun _ _ _ hreaches hstep => hreaches.step hstep)
      WatchedSync.reaches_init hlast
  obtain ⟨middle, hearlier, hrest⟩ := Trace.run_append_eq_some.1 hlast
  obtain ⟨begun, hcapture, hrest⟩ := Trace.run_cons_eq_some.1 hrest
  have hguarded := (hjoined.of_append hearlier).tail hcapture
  obtain ⟨started, hstarted, hfollows⟩ :=
    WatchedSync.follows_capture (WatchedSync.step_eq_some.1 hcapture).1 begun.announced
  obtain ⟨found, hfound, hfollows⟩ :=
    WatchedSync.follows_run hfollows hstarted hlater hguarded hrest
  obtain rfl := Option.mem_unique hentry hfound
  rw [WatchedSync.Follows, hdone] at hfollows
  refine ⟨hfollows.1, fun chat hchat => ?_⟩
  obtain ⟨reached, hreached, howed⟩ := hreaches.reached _ _ (hfollows.2 chat hchat)
  obtain rfl := Option.mem_unique hentry hreached
  refine howed.resolve_left ?_
  rw [CheckoutEntry.pending, hdone]
  exact not_mem_nil

section Examples

def workCheckout (cwd : String) : Option CheckoutIdentity :=
  if cwd = "/work" then some { id := "checkout-1", root := "/work" } else none

def workChat (id : String) : Chat where
  id := id
  deviceId := "device-1"
  cwd := some "/work"
  checkoutId := some "checkout-1"
  branch := some "main"

def workSnapshot (checksum : String) : DiffSnapshot where
  branch := "main"
  headSha := none
  patch := ""
  files := []
  additions := 0
  deletions := 0
  truncated := false
  checksum := checksum

/-- A chat has the snapshot of its checkout when another joins. -/
def joinTrace : List CheckoutAction :=
  [.reconcile workCheckout [workChat "chat-1"], .capture "checkout-1" (workSnapshot "sum-1"),
   .advance "checkout-1" 0, .advance "checkout-1" 0, .advance "checkout-1" 0,
   .advance "checkout-1" 0, .advance "checkout-1" 0, .advance "checkout-1" 0,
   .reconcile workCheckout [workChat "chat-1", workChat "chat-2"]]

/-- The tree has changed when the chat that joined is due. -/
theorem sidecars_cover_join : ∃ final entry,
    Trace.run (step "device-1" (some "https://edge")) {} (joinTrace ++
      .capture "checkout-1" (workSnapshot "sum-2") ::
        List.replicate 7 (.advance "checkout-1" 1)) = some final ∧
    final.entries["checkout-1"]? = some entry ∧
    entry.checksum = some "sum-2" ∧
      ∀ chat ∈ entry.chats, final.Sent "device-1" "https://edge" entry "sum-2" chat.id := by
  refine ⟨_, _, rfl, rfl, ?_⟩
  exact sidecars_cover "device-1" "https://edge" joinTrace
    (List.replicate 7 (.advance "checkout-1" 1)) "checkout-1" (workSnapshot "sum-2")
    (fun action haction => eq_of_mem_replicate haction ▸ trivial)
    (by decide +kernel) rfl rfl rfl

/-- The next sync finds the checksum stored, so the chat that joined gets nothing. -/
theorem sidecar_missed : ∃ final entry,
    Trace.run (step "device-1" (some "https://edge")) {} (joinTrace ++
      .capture "checkout-1" (workSnapshot "sum-1") ::
        [.advance "checkout-1" 1, .advance "checkout-1" 1]) = some final ∧
    final.entries["checkout-1"]? = some entry ∧ entry.sync = none ∧
    workChat "chat-2" ∈ entry.chats ∧
    ¬ final.Sent "device-1" "https://edge" entry "sum-1" "chat-2" := by
  refine ⟨_, _, rfl, rfl, ?_, ?_, ?_⟩
  · decide +kernel
  · decide +kernel
  · refine fun hsent => absurd hsent.chatId_mem ?_
    decide +kernel

end Examples

end CheckoutDiffSync

end Runs

end Keel
