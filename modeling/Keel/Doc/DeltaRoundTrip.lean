import Keel.Doc.TranscriptDelta
import Keel.Foundation.Lists

/-! # What a delta frame rebuilds

Applying the diff of two transcripts to the first one always succeeds and puts
exactly the entries of the second one into the consumer's list. Their order is
right if and only if the entries the frame does not place anew already stand in
their new order.
-/

namespace Keel

open List

def textIds (parts : List MessagePart) : List String :=
  parts.filterMap fun
    | .text id _ => some id
    | _ => none

/-- Entry ids are unique, and so are the text-part ids of every entry. -/
structure UniqueIds (entries : List SessionMessageEntry) : Prop where
  ids : (entries.map fun entry => entry.id).Nodup
  texts : ∀ entry ∈ entries, (textIds entry.parts).Nodup

section TextAppends

theorem tailAppend_some {entryId : String} {found append : TextAppend}
    {pairs : List (MessagePart × MessagePart)}
    (happend : tailAppend entryId (some found) pairs = some append) :
    append = found ∧ ∀ pair ∈ pairs, pair.1 = pair.2 := by
  induction pairs with
  | nil => simp_all [tailAppend]
  | cons pair rest ih =>
    obtain ⟨prev, next⟩ := pair
    simp only [tailAppend] at happend
    split at happend
    next hsame =>
      obtain ⟨rfl, hrest⟩ := ih happend
      refine ⟨rfl, ?_⟩
      simpa [hsame] using hrest
    · split at happend
      · simp at happend
      · cases happend

theorem eq_of_zip_eq {prev next : List MessagePart} (hlength : prev.length = next.length)
    (hpairs : ∀ pair ∈ prev.zip next, pair.1 = pair.2) : prev = next := by
  induction prev generalizing next with
  | nil => cases next <;> simp_all
  | cons part rest ih =>
    cases next with
    | nil => simp at hlength
    | cons part' rest' =>
      simp only [zip_cons_cons, mem_cons, forall_eq_or_imp] at hpairs
      obtain ⟨rfl, hrest⟩ := hpairs
      rw [ih (by simpa using hlength) hrest]

theorem pushTail_of_tailAppend {entryId : String} {append : TextAppend}
    {prev next : List MessagePart} (hids : (textIds prev).Nodup)
    (hlength : prev.length = next.length)
    (happend : tailAppend entryId none (prev.zip next) = some append) :
    append.entry = entryId ∧ append.part ∈ textIds prev ∧
      pushTail append.part append.text prev = some (next, append.len) := by
  induction prev generalizing next with
  | nil => simp [tailAppend] at happend
  | cons part rest ih =>
    cases next with
    | nil => simp at hlength
    | cons part' rest' =>
      simp only [zip_cons_cons, tailAppend] at happend
      split at happend
      next hsame =>
        subst hsame
        cases part with
        | text id tail =>
          obtain ⟨hfresh, hrest⟩ := nodup_cons.mp hids
          obtain ⟨hentry, hpart, hpush⟩ := ih hrest (by simpa using hlength) happend
          have hne : id ≠ append.part := by
            rintro rfl
            exact hfresh hpart
          exact ⟨hentry, mem_cons_of_mem _ hpart, by simp [pushTail, hne, hpush]⟩
        | _ =>
          obtain ⟨hentry, hpart, hpush⟩ := ih hids (by simpa using hlength) happend
          exact ⟨hentry, hpart, by simp [pushTail, hpush]⟩
      · split at happend
        next prevId prevText nextId nextText _ =>
          split at happend
          · cases happend
          next hsame =>
            simp only [ne_eq, not_or, Decidable.not_not, Bool.not_eq_false] at hsame
            obtain ⟨rfl, hstarts, -⟩ := hsame
            obtain ⟨rfl, hrest⟩ := tailAppend_some happend
            obtain rfl := eq_of_zip_eq (by simpa using hlength) hrest
            refine ⟨rfl, mem_cons_self, ?_⟩
            simp [pushTail, Text.append_dropChars hstarts]
        · cases happend

theorem pushTail_of_tryTextAppend {prev next : SessionMessageEntry} {append : TextAppend}
    (hids : (textIds prev.parts).Nodup) (happend : tryTextAppend prev next = some append) :
    append.entry = next.id ∧ prev.id = next.id ∧
      pushTail append.part append.text prev.parts = some (next.parts, append.len) ∧
      { prev with parts := next.parts } = next := by
  rw [tryTextAppend] at happend
  split at happend
  · cases happend
  next hfields =>
    simp only [ne_eq, not_or, Decidable.not_not] at hfields
    obtain ⟨hid, hrole, hcreated, hdevice, hstatus, hcontinuation, hlength⟩ := hfields
    obtain ⟨hentry, -, hpush⟩ := pushTail_of_tailAppend hids hlength happend
    refine ⟨hentry, hid, hpush, ?_⟩
    cases next
    simp_all

end TextAppends

section Index

variable {prev : List SessionMessageEntry} {id : String}

theorem mem_of_prevById {index : Nat} {entry : SessionMessageEntry}
    (hprev : prevById prev id = some (index, entry)) : entry ∈ prev ∧ entry.id = id := by
  simp only [prevById, Option.map_eq_some_iff, Prod.exists] at hprev
  obtain ⟨found, position, hfind, hswap⟩ := hprev
  obtain ⟨rfl, rfl⟩ : position = index ∧ found = entry := by simpa using hswap
  have hmem := mem_of_find?_eq_some hfind
  have hid := find?_some hfind
  rw [mem_reverse] at hmem
  exact ⟨(mem_zipIdx hmem).2.2 ▸ getElem_mem _, by simpa using hid⟩

theorem UniqueIds.eq_of_id {entries : List SessionMessageEntry} (hunique : UniqueIds entries)
    {first second : SessionMessageEntry} (hfirst : first ∈ entries) (hsecond : second ∈ entries)
    (hid : first.id = second.id) : first = second :=
  inj_on_of_nodup_map hunique.ids hfirst hsecond hid

theorem entryChange_cases (prev : List SessionMessageEntry) (after : Option String)
    (entry : SessionMessageEntry) :
    (∃ placed, entryChange prev after entry = .upsert placed ∧ placed = ⟨after, entry⟩) ∨
      (entryChange prev after entry = .skip ∧ entry ∈ prev) ∨
      (∃ append old, entryChange prev after entry = .append append ∧ old ∈ prev ∧
        tryTextAppend old entry = some append) := by
  unfold entryChange
  split
  next index old hprev =>
    obtain ⟨hmem, -⟩ := mem_of_prevById hprev
    simp only
    split
    next hsame => exact .inr (.inl ⟨rfl, hsame.1 ▸ hmem⟩)
    · split
      next append happend =>
        split at happend
        · exact .inr (.inr ⟨append, old, rfl, hmem, happend⟩)
        · cases happend
      · exact .inl ⟨_, rfl, rfl⟩
  · exact .inl ⟨_, rfl, rfl⟩

end Index

section Appends

theorem applyAppend_eq {current : List SessionMessageEntry} {append : TextAppend}
    {old new : SessionMessageEntry} (hids : (current.map fun entry => entry.id).Nodup)
    (hold : old ∈ current) (hid : old.id = append.entry)
    (hpush : pushTail append.part append.text old.parts = some (new.parts, append.len))
    (hnew : { old with parts := new.parts } = new) :
    applyAppend current append = .ok (current.map fun entry =>
      if entry.id = append.entry then new else entry) := by
  have hunique : ∀ entry ∈ current, entry.id = append.entry → entry = old := fun entry hentry h =>
    inj_on_of_nodup_map hids hentry hold (h.trans hid.symm)
  have hfind : (current.find? fun entry => entry.id == append.entry) = some old := by
    cases hfound : current.find? fun entry => entry.id == append.entry with
    | none =>
      rw [find?_eq_none] at hfound
      exact absurd (hfound old hold) (by simp [hid])
    | some found =>
      rw [hunique found (mem_of_find?_eq_some hfound) (by simpa using find?_some hfound)]
  rw [applyAppend, hfind]
  simp only [hpush, ne_eq, not_true_eq_false, if_false, Except.ok.injEq]
  rw [Lists.lookmap_eq_map_of_nodup (fun entry : SessionMessageEntry => entry.id) append.entry
    (fun entry => { entry with parts := new.parts }) hids]
  apply map_congr_left
  intro entry hentry
  split
  next hmatch => rw [hunique entry hentry hmatch, hnew]
  · rfl

end Appends

def upsertsOf (prev : List SessionMessageEntry) (after : Option String)
    (next : List SessionMessageEntry) : List TranscriptUpsert :=
  (entryChanges prev after next).filterMap EntryChange.upsert?

def appendsOf (prev : List SessionMessageEntry) (after : Option String)
    (next : List SessionMessageEntry) : List TextAppend :=
  (entryChanges prev after next).filterMap EntryChange.append?

def resentIds (prev : List SessionMessageEntry) (after : Option String)
    (next : List SessionMessageEntry) : List String :=
  (upsertsOf prev after next).map fun placed => placed.entry.id

section Phases

variable {prev current rest : List SessionMessageEntry} {after : Option String}
attribute [local simp] EntryChange.upsert? EntryChange.append?


@[local simp] theorem upsertsOf_cons (head : SessionMessageEntry) :
    upsertsOf prev after (head :: rest) =
      (entryChange prev after head).upsert?.toList ++ upsertsOf prev (some head.id) rest := by
  rw [upsertsOf, entryChanges, filterMap_cons]
  cases (entryChange prev after head).upsert? <;> rfl

theorem appendsOf_cons (head : SessionMessageEntry) :
    appendsOf prev after (head :: rest) =
      (entryChange prev after head).append?.toList ++ appendsOf prev (some head.id) rest := by
  rw [appendsOf, entryChanges, filterMap_cons]
  cases (entryChange prev after head).append? <;> rfl

variable {entry : SessionMessageEntry}

theorem mem_resentIds_cons {id : String} (hne : id ≠ entry.id) :
    id ∈ resentIds prev after (entry :: rest) ↔ id ∈ resentIds prev (some entry.id) rest := by
  rcases entryChange_cases prev after entry with
    ⟨placed, hchange, rfl⟩ | ⟨hchange, -⟩ | ⟨append, old, hchange, -, -⟩
  all_goals
    simp [resentIds, hchange, hne]

theorem mem_of_mem_upsertsOf {placed : TranscriptUpsert}
    (hplaced : placed ∈ upsertsOf prev after rest) : placed.entry ∈ rest := by
  induction rest generalizing after with
  | nil => simp [upsertsOf, entryChanges] at hplaced
  | cons head tail ih =>
    rw [upsertsOf_cons, mem_append, Option.mem_toList] at hplaced
    rcases hplaced with hhead | htail
    · rcases entryChange_cases prev after head with
        ⟨first, hchange, rfl⟩ | ⟨hchange, -⟩ | ⟨append, old, hchange, -, -⟩
      all_goals simp only [hchange, EntryChange.upsert?, reduceCtorEq, Option.some.injEq] at hhead
      subst hhead
      exact mem_cons_self
    · exact mem_cons_of_mem _ (ih htail)

theorem not_mem_resentIds {id : String} (hid : id ∉ rest.map fun entry => entry.id) :
    id ∉ resentIds prev after rest := by
  intro hmem
  obtain ⟨placed, hplaced, rfl⟩ := mem_map.mp hmem
  exact hid (mem_map_of_mem (mem_of_mem_upsertsOf hplaced))

theorem upsertsOf_cases (prev : List SessionMessageEntry) (after : Option String)
    {head : SessionMessageEntry}
    (hfresh : head.id ∉ rest.map fun entry => entry.id) :
    (head.id ∈ resentIds prev after (head :: rest) ∧
        upsertsOf prev after (head :: rest) = ⟨after, head⟩ :: upsertsOf prev (some head.id) rest) ∨
      (head.id ∉ resentIds prev after (head :: rest) ∧
        upsertsOf prev after (head :: rest) = upsertsOf prev (some head.id) rest ∧
        ∃ old ∈ prev, old.id = head.id) := by
  rcases entryChange_cases prev after head with
    ⟨placed, hchange, rfl⟩ | ⟨hchange, hmem⟩ | ⟨append, old, hchange, hmem, happend⟩
  · refine .inl ⟨?_, ?_⟩
    · simp [resentIds, hchange]
    · simp [hchange]
  · have hsame : upsertsOf prev after (head :: rest) = upsertsOf prev (some head.id) rest := by
      simp [hchange]
    refine .inr ⟨?_, hsame, head, hmem, rfl⟩
    rw [resentIds, hsame]
    exact not_mem_resentIds hfresh
  · have hsame : upsertsOf prev after (head :: rest) = upsertsOf prev (some head.id) rest := by
      simp [hchange]
    refine .inr ⟨?_, hsame, old, hmem, ?_⟩
    · rw [resentIds, hsame]
      exact not_mem_resentIds hfresh
    · unfold tryTextAppend at happend
      split at happend
      · cases happend
      next hfields => exact Decidable.not_not.mp fun hid => hfields (.inl hid)

theorem applyAppends_cons (hprev : UniqueIds prev) {head : SessionMessageEntry}
    (hfresh : head.id ∉ rest.map fun entry => entry.id)
    (hids : (current.map fun entry => entry.id).Nodup)
    (hkept : head.id ∉ resentIds prev after (head :: rest) →
      ∀ old ∈ prev, old.id = head.id → old ∈ current) :
    ∃ next, applyAppends current (appendsOf prev after (head :: rest)) =
        applyAppends next (appendsOf prev (some head.id) rest) ∧
      (next.map fun entry => entry.id) = (current.map fun entry => entry.id) ∧
      (∀ entry ∈ next, entry = head ∨ (entry ∈ current ∧
        (entry.id = head.id → head.id ∈ resentIds prev after (head :: rest)))) ∧
      ∀ entry ∈ current, entry.id ≠ head.id → entry ∈ next := by
  have hlater : head.id ∉ resentIds prev (some head.id) rest := not_mem_resentIds hfresh
  rcases entryChange_cases prev after head with
    ⟨placed, hchange, rfl⟩ | ⟨hchange, hmem⟩ | ⟨append, old, hchange, hmem, happend⟩
  · have hresent : head.id ∈ resentIds prev after (head :: rest) := by
      simp [resentIds, hchange]
    refine ⟨current, ?_, rfl, fun entry hentry => .inr ⟨hentry, fun _ => hresent⟩,
      fun entry hentry _ => hentry⟩
    simp [appendsOf_cons, hchange]
  · have hnot : head.id ∉ resentIds prev after (head :: rest) := by
      simpa [resentIds, upsertsOf_cons, hchange, EntryChange.upsert?] using hlater
    refine ⟨current, ?_, rfl, ?_, fun entry hentry _ => hentry⟩
    · simp [appendsOf_cons, hchange]
    · intro entry hentry
      by_cases hid : entry.id = head.id
      · exact .inl (inj_on_of_nodup_map hids hentry (hkept hnot head hmem rfl) hid)
      · exact .inr ⟨hentry, fun heq => absurd heq hid⟩
  · have hnot : head.id ∉ resentIds prev after (head :: rest) := by
      simpa [resentIds, upsertsOf_cons, hchange, EntryChange.upsert?] using hlater
    obtain ⟨hentry, hid, hpush, hnew⟩ := pushTail_of_tryTextAppend (hprev.texts old hmem) happend
    have hold := hkept hnot old hmem hid
    have hmove := applyAppend_eq hids hold (hid.trans hentry.symm) hpush hnew
    rw [hentry] at hmove
    refine ⟨current.map fun entry => if entry.id = head.id then head else entry, ?_, ?_, ?_, ?_⟩
    · simp [appendsOf_cons, hchange, applyAppends, hmove, bind, Except.bind]
    · rw [map_map]
      apply map_congr_left
      intro entry _
      by_cases hmatch : entry.id = head.id
      · simp [hmatch]
      · simp [hmatch]
    · intro entry hmem
      obtain ⟨source, hsource, rfl⟩ := mem_map.mp hmem
      by_cases hmatch : source.id = head.id
      · exact .inl (if_pos hmatch)
      · rw [if_neg hmatch]
        exact .inr ⟨hsource, fun heq => absurd heq hmatch⟩
    · intro entry hmem hmatch
      exact mem_map.mpr ⟨entry, hmem, if_neg hmatch⟩

/-- The appends succeed on a list that holds the old form of every entry not
placed anew, and turn those entries into their new form. -/
theorem applyAppends_spec (hprev : UniqueIds prev) (hrest : (rest.map fun entry => entry.id).Nodup)
    (hids : (current.map fun entry => entry.id).Nodup)
    (hkept : ∀ entry ∈ rest, entry.id ∉ resentIds prev after rest →
      ∀ old ∈ prev, old.id = entry.id → old ∈ current) :
    ∃ final, applyAppends current (appendsOf prev after rest) = .ok final ∧
      (final.map fun entry => entry.id) = (current.map fun entry => entry.id) ∧
      ∀ entry ∈ final, entry ∈ rest ∨ (entry ∈ current ∧
        (entry.id ∈ rest.map (fun entry => entry.id) → entry.id ∈ resentIds prev after rest)) := by
  induction rest generalizing after current with
  | nil => exact ⟨current, rfl, rfl, fun entry hentry => .inr ⟨hentry, by simp⟩⟩
  | cons head tail ih =>
    rw [map_cons, nodup_cons] at hrest
    obtain ⟨hfresh, htail⟩ := hrest
    have hne : ∀ entry ∈ tail, entry.id ≠ head.id := fun entry hentry heq =>
      hfresh (heq ▸ mem_map_of_mem hentry)
    obtain ⟨next, hnext, hsame, hmem, hothers⟩ := applyAppends_cons hprev hfresh hids
      (hkept head mem_cons_self)
    have hrest : ∀ entry ∈ tail, entry.id ∉ resentIds prev (some head.id) tail →
        ∀ old ∈ prev, old.id = entry.id → old ∈ next := by
      intro entry hentry hnot old hold hid
      refine hothers old (hkept entry (mem_cons_of_mem _ hentry) ?_ old hold hid) ?_
      · rwa [mem_resentIds_cons (hne entry hentry)]
      · rw [hid]
        exact hne entry hentry
    obtain ⟨final, happly, hfinal, hentries⟩ := ih htail (hsame ▸ hids) hrest
    refine ⟨final, hnext.trans happly, hfinal.trans hsame, ?_⟩
    intro entry hentry
    rcases hentries entry hentry with htail | ⟨hcurrent, hresent⟩
    · exact .inl (mem_cons_of_mem _ htail)
    · rcases hmem entry hcurrent with rfl | ⟨hold, hhead⟩
      · exact .inl mem_cons_self
      · refine .inr ⟨hold, fun hid => ?_⟩
        by_cases heq : entry.id = head.id
        · rw [heq]
          exact hhead heq
        · rw [mem_resentIds_cons heq]
          exact hresent (by simpa [heq] using hid)

theorem map_id_eraseP (entry : SessionMessageEntry) :
    ((current.eraseP fun other => other.id == entry.id).map fun other => other.id) =
      (current.map fun other => other.id).erase entry.id := by
  rw [erase_eq_eraseP', eraseP_map]
  rfl

theorem applyUpserts_cons {ids : List String}
    (hmove : Splice.moveAfter after entry.id (current.map fun other => other.id) = some ids)
    (upserts : List TranscriptUpsert) :
    ∃ next, applyUpserts current (⟨after, entry⟩ :: upserts) = applyUpserts next upserts ∧
      (next.map fun other => other.id) = ids ∧
      next.Perm (entry :: current.eraseP fun other => other.id == entry.id) := by
  rw [Splice.moveAfter, ← map_id_eraseP] at hmove
  cases after with
  | none =>
    cases hmove
    exact ⟨entry :: current.eraseP fun other => other.id == entry.id, rfl, rfl, .refl _⟩
  | some anchor =>
    simp only [Splice.insertAfter, List.idxOf?, findIdx?_map, Option.map_eq_some_iff] at hmove
    obtain ⟨index, hindex, rfl⟩ := hmove
    have hlt := (findIdx?_eq_some_iff_getElem.mp hindex).1
    refine ⟨(current.eraseP fun other => other.id == entry.id).insertIdx (index + 1) entry,
      ?_, ?_, perm_insertIdx _ _ hlt⟩
    · simp only [applyUpserts]
      rw [show (current.eraseP fun other => other.id == entry.id).findIdx?
        (fun other => other.id == anchor) = some index from hindex]
    · rw [map_insertIdx]

theorem applyUpserts_spec (prev : List SessionMessageEntry) {moved : String → Bool}
    {ids : List String}
    (hrest : (rest.map fun entry => entry.id).Nodup)
    (hids : (current.map fun entry => entry.id).Nodup)
    (hmoved : ∀ entry ∈ rest, (moved entry.id = true ↔ entry.id ∈ resentIds prev after rest))
    (hreplay : Splice.replay moved after (rest.map fun entry => entry.id)
      (current.map fun entry => entry.id) = some ids) :
    ∃ final, applyUpserts current (upsertsOf prev after rest) = .ok final ∧
      (final.map fun entry => entry.id) = ids ∧
      ∀ entry ∈ final, (entry ∈ current ∧ entry.id ∉ resentIds prev after rest) ∨
        (entry ∈ rest ∧ entry.id ∈ resentIds prev after rest) := by
  induction rest generalizing after current with
  | nil =>
    cases hreplay
    exact ⟨current, rfl, rfl, fun entry hentry =>
      .inl ⟨hentry, by simp [resentIds, upsertsOf, entryChanges]⟩⟩
  | cons head tail ih =>
    rw [map_cons, nodup_cons] at hrest
    obtain ⟨hfresh, htail⟩ := hrest
    have hne : ∀ entry ∈ tail, entry.id ≠ head.id := fun entry hentry heq =>
      hfresh (heq ▸ mem_map_of_mem hentry)
    have hmovedTail : ∀ entry ∈ tail,
        (moved entry.id = true ↔ entry.id ∈ resentIds prev (some head.id) tail) := by
      intro entry hentry
      rw [hmoved entry (mem_cons_of_mem _ hentry), mem_resentIds_cons (hne entry hentry)]
    have hhead := hmoved head mem_cons_self
    rw [map_cons, Splice.replay] at hreplay
    rcases upsertsOf_cases prev after hfresh with
      ⟨hresent, hupserts⟩ | ⟨hkept, hupserts, -⟩
    · rw [if_pos (hhead.mpr hresent), Option.bind_eq_some_iff] at hreplay
      obtain ⟨moves, hmove, hreplay⟩ := hreplay
      obtain ⟨next, hnext, rfl, hperm⟩ := applyUpserts_cons hmove
        (upsertsOf prev (some head.id) tail)
      have herase : ((current.eraseP fun other => other.id == head.id).map
          fun other => other.id).Nodup ∧ head.id ∉
            (current.eraseP fun other => other.id == head.id).map fun other => other.id := by
        rw [map_id_eraseP]
        exact ⟨hids.erase head.id, hids.not_mem_erase⟩
      have hnextIds : (next.map fun entry => entry.id).Nodup := by
        rw [(hperm.map _).nodup_iff, map_cons, nodup_cons]
        exact ⟨herase.2, herase.1⟩
      obtain ⟨final, happly, hfinal, hentries⟩ := ih htail hnextIds hmovedTail hreplay
      refine ⟨final, by rw [hupserts, hnext, happly], hfinal, ?_⟩
      intro entry hentry
      rcases hentries entry hentry with ⟨hmem, hnot⟩ | ⟨hmem, hplaced⟩
      · rcases mem_cons.mp (hperm.mem_iff.mp hmem) with rfl | hold
        · exact .inr ⟨mem_cons_self, hresent⟩
        · have hother : entry.id ≠ head.id := fun heq =>
            herase.2 (mem_map.mpr ⟨entry, hold, heq⟩)
          exact .inl ⟨mem_of_mem_eraseP hold, by rwa [mem_resentIds_cons hother]⟩
      · exact .inr ⟨mem_cons_of_mem _ hmem,
          by rwa [mem_resentIds_cons (hne entry hmem)]⟩
    · rw [if_neg (fun htrue => hkept (hhead.mp htrue))] at hreplay
      obtain ⟨final, happly, hfinal, hentries⟩ := ih htail hids hmovedTail hreplay
      refine ⟨final, by rw [hupserts, happly], hfinal, ?_⟩
      have hsame : resentIds prev after (head :: tail) = resentIds prev (some head.id) tail := by
        rw [resentIds, hupserts, resentIds]
      intro entry hentry
      rw [hsame]
      rcases hentries entry hentry with hold | ⟨hmem, hplaced⟩
      · exact .inl hold
      · exact .inr ⟨mem_cons_of_mem _ hmem, hplaced⟩

theorem exists_old_of_not_resent (prev : List SessionMessageEntry)
    (hrest : (rest.map fun entry => entry.id).Nodup) (hentry : entry ∈ rest)
    (hkept : entry.id ∉ resentIds prev after rest) : ∃ old ∈ prev, old.id = entry.id := by
  induction rest generalizing after with
  | nil => cases hentry
  | cons head tail ih =>
    rw [map_cons, nodup_cons] at hrest
    rcases mem_cons.mp hentry with rfl | htail
    · rcases upsertsOf_cases prev after hrest.1 with
        ⟨hresent, -⟩ | ⟨-, -, hold⟩
      · exact absurd hresent hkept
      · exact hold
    · have hne : entry.id ≠ head.id := fun heq => hrest.1 (heq ▸ mem_map_of_mem htail)
      rw [mem_resentIds_cons hne] at hkept
      exact ih hrest.2 htail hkept

end Phases

/-- The ids of the entries the diff leaves where they are, in their new order. -/
def keptIds (prev next : List SessionMessageEntry) : List String :=
  (next.map fun entry => entry.id).filter fun id => !(resentIds prev none next).contains id

section RoundTrip

variable {prev next : List SessionMessageEntry}

/-- What the removals leave: the entries common to both transcripts. -/
def commonEntries (prev next : List SessionMessageEntry) : List SessionMessageEntry :=
  prev.filter fun entry => (next.map fun entry => entry.id).contains entry.id

theorem retain_eq {remove : List String}
    (hremove : remove = (prev.filter fun entry =>
      !(next.map fun entry => entry.id).contains entry.id).map fun entry => entry.id) :
    (if remove.isEmpty then prev else prev.filter fun entry => !remove.contains entry.id) =
      commonEntries prev next := by
  have hgone : ∀ entry ∈ prev, (!remove.contains entry.id) =
      (next.map fun entry => entry.id).contains entry.id := by
    intro entry hentry
    rw [Bool.eq_iff_iff, Bool.not_eq_true', ← Bool.not_eq_true, contains_iff_mem,
      contains_iff_mem, hremove]
    constructor
    · intro hnot
      by_contra habsent
      exact hnot (mem_map_of_mem (mem_filter.mpr ⟨hentry, by simpa using habsent⟩))
    · intro hmem hgone
      obtain ⟨other, hother, hid⟩ := mem_map.mp hgone
      have habsent := (mem_filter.mp hother).2
      rw [hid] at habsent
      simp_all
  split
  next hempty =>
    refine (filter_eq_self.mpr fun entry hentry => ?_).symm
    rw [← hgone entry hentry, isEmpty_iff.mp hempty]
    rfl
  · exact filter_congr hgone

theorem mem_commonIds {id : String} :
    id ∈ (commonEntries prev next).map (fun entry => entry.id) ↔
      id ∈ prev.map (fun entry => entry.id) ∧ id ∈ next.map fun entry => entry.id := by
  simp only [commonEntries, mem_map, mem_filter, contains_iff_mem]
  constructor
  · rintro ⟨entry, ⟨hprev, hnext⟩, rfl⟩
    exact ⟨⟨entry, hprev, rfl⟩, hnext⟩
  · rintro ⟨⟨entry, hprev, rfl⟩, hnext⟩
    exact ⟨entry, ⟨hprev, hnext⟩, rfl⟩

theorem commonIds_eq : (commonEntries prev next).map (fun entry => entry.id) =
    (prev.map fun entry => entry.id).filter (next.map fun entry => entry.id).contains := by
  rw [commonEntries, filter_map]
  rfl

theorem UniqueIds.eq_iff_ids (hnext : UniqueIds next) {final : List SessionMessageEntry}
    (hmem : ∀ entry ∈ final, entry ∈ next) :
    final = next ↔ (final.map fun entry => entry.id) = next.map fun entry => entry.id := by
  refine ⟨fun heq => by rw [heq], fun hids => ?_⟩
  have hinj : ∀ first ∈ next, ∀ second ∈ next, first.id = second.id → first = second :=
    fun first hfirst second hsecond => hnext.eq_of_id hfirst hsecond
  refine ext_getElem? fun index => ?_
  have hindex := congrArg (fun ids => ids[index]?) hids
  simp only [getElem?_map] at hindex
  cases hfirst : final[index]? with
  | none =>
    cases hsecond : next[index]? with
    | none => rfl
    | some second => simp [hfirst, hsecond] at hindex
  | some first =>
    cases hsecond : next[index]? with
    | none => simp [hfirst, hsecond] at hindex
    | some second =>
      simp only [hfirst, hsecond, Option.map_some, Option.some.injEq] at hindex
      rw [hinj first (hmem first (mem_of_getElem? hfirst)) second
        (mem_of_getElem? hsecond) hindex]

theorem replaying_common (hprev : UniqueIds prev) (hnext : UniqueIds next) :
    Splice.Replaying (fun id => (resentIds prev none next).contains id) []
      (next.map fun entry => entry.id) ((commonEntries prev next).map fun entry => entry.id) where
  target := hnext.ids
  nodup := by
    rw [commonIds_eq]
    exact hprev.ids.filter _
  done_mem := by simp
  kept_mem := by
    intro id hid hkept
    obtain ⟨entry, hentry, rfl⟩ := mem_map.mp hid
    obtain ⟨old, hold, hsame⟩ := exists_old_of_not_resent prev hnext.ids hentry
      (by simpa using hkept)
    exact mem_commonIds.2 ⟨mem_map.mpr ⟨old, hold, hsame⟩, hid⟩
  only := fun id hid => (mem_commonIds.1 hid).2

theorem keptIds_sublist_common_iff :
    (keptIds prev next).Sublist ((commonEntries prev next).map fun entry => entry.id) ↔
      (keptIds prev next).Sublist (prev.map fun entry => entry.id) := by
  rw [commonIds_eq]
  refine ⟨fun hsublist => hsublist.trans filter_sublist, fun hsublist => ?_⟩
  have hfilter := hsublist.filter (next.map fun entry => entry.id).contains
  rwa [filter_eq_self.mpr] at hfilter
  intro id hid
  simpa using mem_of_mem_filter hid

/-- Without a reset the diff applies, and gives the new transcript if and only
if the entries it leaves where they are stand in their new order. -/
theorem applyDelta_spec (hprev : UniqueIds prev) (hnext : UniqueIds next)
    (hdelta : prefersReset (upsertsOf prev none next) next = false) :
    ∃ final, applyTranscriptFrame prev (diffTranscript prev next) = .ok final ∧
      (final = next ↔ (keptIds prev next).Sublist (prev.map fun entry => entry.id)) := by
  have hreplaying := replaying_common hprev hnext
  obtain ⟨ids, hreplay, hnodup, hsame, horder⟩ := Splice.replay_eq_target_iff hreplaying
  obtain ⟨placed, hplaced, rfl, hforms⟩ := applyUpserts_spec prev hnext.ids
    hreplaying.nodup (fun entry _ => contains_iff_mem) hreplay
  -- An entry that was not placed anew still has its old form.
  have hold : ∀ entry ∈ next, entry.id ∉ resentIds prev none next →
      ∀ old ∈ prev, old.id = entry.id → old ∈ placed := by
    intro entry hentry hkept old hmem hid
    obtain ⟨found, hfound, hfoundId⟩ := mem_map.mp
      ((hsame entry.id).mpr (mem_map_of_mem hentry))
    rcases hforms found hfound with ⟨hcommon, -⟩ | ⟨-, hresent⟩
    · have hfoundPrev : found ∈ prev := mem_of_mem_filter hcommon
      rwa [← hprev.eq_of_id hfoundPrev hmem (hfoundId.trans hid.symm)]
    · rw [hfoundId] at hresent
      exact absurd hresent hkept
  obtain ⟨final, hfinal, hfinalIds, hentries⟩ := applyAppends_spec hprev hnext.ids hnodup hold
  have hmem : ∀ entry ∈ final, entry ∈ next := by
    intro entry hentry
    rcases hentries entry hentry with hnew | ⟨hplaced, hresent⟩
    · exact hnew
    · have hid : entry.id ∈ next.map fun entry => entry.id :=
        (hsame entry.id).mp (mem_map_of_mem hplaced)
      rcases hforms entry hplaced with ⟨-, hkept⟩ | ⟨hnew, -⟩
      · exact absurd (hresent hid) hkept
      · exact hnew
  have hcount : final.length = next.length := by
    have hperm : (final.map fun entry => entry.id).Perm (next.map fun entry => entry.id) := by
      rw [hfinalIds]
      exact (perm_ext_iff_of_nodup hnodup hnext.ids).mpr hsame
    simpa using hperm.length_eq
  refine ⟨final, ?_, ?_⟩
  · have hframe : diffTranscript prev next = .delta (upsertsOf prev none next)
        (appendsOf prev none next) ((prev.filter fun entry =>
          !(next.map fun entry => entry.id).contains entry.id).map fun entry => entry.id)
        next.length := by
      simp only [diffTranscript]
      rw [if_neg]
      · rfl
      · simpa [upsertsOf] using hdelta
    rw [hframe]
    simp only [applyTranscriptFrame]
    rw [retain_eq rfl]
    simp [hplaced, hfinal, hcount, bind, Except.bind]
  · rw [hnext.eq_iff_ids hmem, hfinalIds, horder, ← keptIds_sublist_common_iff]
    rfl

/-- Where the common entries keep their relative order, a consumer that applies
the diff ends with exactly the new transcript. -/
theorem applyDiff_eq_next (prev next : List SessionMessageEntry) (hprev : UniqueIds prev)
    (hnext : UniqueIds next)
    (horder : (prev.map fun entry => entry.id).filter (next.map fun entry => entry.id).contains =
      (next.map fun entry => entry.id).filter (prev.map fun entry => entry.id).contains) :
    applyTranscriptFrame prev (diffTranscript prev next) = .ok next := by
  cases hreset : prefersReset (upsertsOf prev none next) next with
  | true =>
    rw [upsertsOf] at hreset
    simp [diffTranscript, hreset, applyTranscriptFrame]
  | false =>
    obtain ⟨final, happly, hiff⟩ := applyDelta_spec hprev hnext hreset
    rw [happly, hiff.mpr]
    -- What stays in place is among the common entries, in the new order.
    have hcommon : (keptIds prev next).Sublist ((next.map fun entry => entry.id).filter
        (prev.map fun entry => entry.id).contains) := by
      have hfilter := (filter_sublist (l := next.map fun entry => entry.id)
        (p := fun id => !(resentIds prev none next).contains id)).filter
          (prev.map fun entry => entry.id).contains
      rwa [filter_eq_self.mpr] at hfilter
      intro id hid
      obtain ⟨hmem, hkept⟩ := mem_filter.mp hid
      obtain ⟨entry, hentry, rfl⟩ := mem_map.mp hmem
      obtain ⟨old, hold, hsame⟩ := exists_old_of_not_resent prev hnext.ids hentry
        (by simpa using hkept)
      rw [contains_iff_mem, ← hsame]
      exact mem_map_of_mem hold
    exact hcommon.trans (horder ▸ filter_sublist)

/-- A consumer that applies the diff without an error ends with the new
transcript if and only if the frame is a reset or the entries the diff leaves
where they are stand in their new order. -/
theorem applyDiff_sound_iff (prev next : List SessionMessageEntry) (hprev : UniqueIds prev)
    (hnext : UniqueIds next) :
    (∀ final, applyTranscriptFrame prev (diffTranscript prev next) = .ok final → final = next) ↔
      prefersReset (upsertsOf prev none next) next = true ∨
        (keptIds prev next).Sublist (prev.map fun entry => entry.id) := by
  cases hreset : prefersReset (upsertsOf prev none next) next with
  | true =>
    rw [upsertsOf] at hreset
    simp [diffTranscript, hreset, applyTranscriptFrame, eq_comm]
  | false =>
    obtain ⟨final, happly, hiff⟩ := applyDelta_spec hprev hnext hreset
    simp [happly, hiff]

end RoundTrip

section Examples

/-- An assistant entry with one text part. -/
def textEntry (id text : String) : SessionMessageEntry :=
  { id, role := .assistant, parts := [.text "t0" text], createdAt := 0, deviceId := "dev"
    status := none, continuationOf := none }

/-- A removal, an insert in the middle, an appended text and an edit at once. -/
theorem applyDiff_eq_next_mixed :
    applyTranscriptFrame [textEntry "a" "1", textEntry "b" "2", textEntry "c" "3"]
        (diffTranscript [textEntry "a" "1", textEntry "b" "2", textEntry "c" "3"]
          [textEntry "a" "1 more", textEntry "d" "4", textEntry "c" "new"]) =
      .ok [textEntry "a" "1 more", textEntry "d" "4", textEntry "c" "new"] :=
  applyDiff_eq_next _ _ ⟨by decide, by decide⟩ ⟨by decide, by decide⟩ (by decide)

def threeEntries : List SessionMessageEntry :=
  [textEntry "a" "1", textEntry "b" "2", textEntry "c" "3"]

def threeRotated : List SessionMessageEntry :=
  [textEntry "b" "2", textEntry "c" "3", textEntry "a" "1"]

theorem applyDiff_sound_neighbours :
    ∃ final, applyTranscriptFrame threeEntries (diffTranscript threeEntries threeRotated) =
      .ok final ∧ final = threeRotated := by
  have hsound := (applyDiff_sound_iff threeEntries threeRotated
    ⟨by decide, by decide⟩ ⟨by decide, by decide⟩).mpr (.inr (by decide))
  have happlies : (applyTranscriptFrame threeEntries
      (diffTranscript threeEntries threeRotated)).isOk = true := by decide
  cases happly : applyTranscriptFrame threeEntries (diffTranscript threeEntries threeRotated) with
  | ok final => exact ⟨final, rfl, hsound final happly⟩
  | error error =>
    rw [happly] at happlies
    cases happlies

/-- Two pairs trade places: the second entry of each pair keeps its predecessor
and is not mentioned. -/
theorem swappedPairs_corrupt :
    ¬ ∀ prev next : List SessionMessageEntry, UniqueIds prev → UniqueIds next →
      ∀ final, applyTranscriptFrame prev (diffTranscript prev next) = .ok final → final = next := by
  intro hsound
  have happly : applyTranscriptFrame
      [textEntry "a" "1", textEntry "b" "2", textEntry "c" "3", textEntry "d" "4"]
      (diffTranscript [textEntry "a" "1", textEntry "b" "2", textEntry "c" "3", textEntry "d" "4"]
        [textEntry "c" "3", textEntry "d" "4", textEntry "a" "1", textEntry "b" "2"]) =
      .ok [textEntry "c" "3", textEntry "b" "2", textEntry "d" "4", textEntry "a" "1"] := by
    decide
  have hcorrupt := hsound _ _ ⟨by decide, by decide⟩ ⟨by decide, by decide⟩ _ happly
  exact absurd hcorrupt (by decide)

end Examples

end Keel
