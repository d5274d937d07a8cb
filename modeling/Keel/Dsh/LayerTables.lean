import Keel.Dsh.ScopedLayers

/-! # What a layer holds

A layer's tables are a list of insertions: each table holds its own, in order, under names
and numbers of their own. An insertion adds to the end of the list, an undo takes its own
insertion out of it.
-/

namespace Keel.Scoped

open List Function

variable {κ V : Type}

def Placed.insertion : Placed κ V → Insertion κ V
  | .named table name value => .insert table name value
  | .anonymous table _ value => .append table value

/-- What a reader sees of a layer's tables. -/
@[ext] structure LayerView (κ V : Type) where
  named : κ → List (String × V)
  anonymous : κ → List V

def Layer.view (layer : Layer κ V) : LayerView κ V where
  named := fun table => (layer.named table).data
  anonymous := fun table => (layer.anonymous table).items.map Prod.snd

variable [DecidableEq κ]

/-- The entry an insertion adds to a named table. -/
def Insertion.entry? (table : κ) : Insertion κ V → Option (String × V)
  | .insert other name value => if other = table then some (name, value) else none
  | .append _ _ => none

/-- The value an insertion adds to an anonymous table. -/
def Insertion.value? (table : κ) : Insertion κ V → Option V
  | .insert _ _ _ => none
  | .append other value => if other = table then some value else none

/-- The numbered entry that an insertion made stands under. -/
def Placed.item? (table : κ) : Placed κ V → Option (Nat × V)
  | .named _ _ _ => none
  | .anonymous other id value => if other = table then some (id, value) else none

def namedAt (table : κ) (insertions : List (Insertion κ V)) : List (String × V) :=
  insertions.filterMap (Insertion.entry? table)

def valuesAt (table : κ) (insertions : List (Insertion κ V)) : List V :=
  insertions.filterMap (Insertion.value? table)

def itemsAt (table : κ) (placed : List (Placed κ V)) : List (Nat × V) :=
  placed.filterMap (Placed.item? table)

def viewOf (insertions : List (Insertion κ V)) : LayerView κ V where
  named := fun table => namedAt table insertions
  anonymous := fun table => valuesAt table insertions

section
variable (table : κ)
include table

@[simp] theorem namedAt_append (first second : List (Insertion κ V)) :
    namedAt table (first ++ second) = namedAt table first ++ namedAt table second :=
  filterMap_append

@[simp] theorem namedAt_cons (first : Insertion κ V) (rest : List (Insertion κ V)) :
    namedAt table (first :: rest) = (first.entry? table).toList ++ namedAt table rest := by
  cases hfirst : first.entry? table with
  | none | some entry => simp [namedAt, hfirst]

@[simp] theorem namedAt_nil : namedAt table ([] : List (Insertion κ V)) = [] := rfl

@[simp] theorem itemsAt_append (first second : List (Placed κ V)) :
    itemsAt table (first ++ second) = itemsAt table first ++ itemsAt table second :=
  filterMap_append

@[simp] theorem itemsAt_cons (first : Placed κ V) (rest : List (Placed κ V)) :
    itemsAt table (first :: rest) = (first.item? table).toList ++ itemsAt table rest := by
  cases hfirst : first.item? table with
  | none | some entry => simp [itemsAt, hfirst]

@[simp] theorem itemsAt_nil : itemsAt table ([] : List (Placed κ V)) = [] := rfl

theorem value?_insertion (placed : Placed κ V) :
    placed.insertion.value? table = (placed.item? table).map Prod.snd := by
  cases placed with
  | named other name value => rfl
  | anonymous other id value =>
    simp only [Placed.insertion, Insertion.value?, Placed.item?]
    split <;> rfl

theorem valuesAt_insertions (placed : List (Placed κ V)) :
    valuesAt table (placed.map Placed.insertion) = (itemsAt table placed).map Prod.snd := by
  simp only [valuesAt, itemsAt, filterMap_map, map_filterMap]
  apply filterMap_congr
  intro entry _
  exact value?_insertion table entry

end

theorem filter_key_ne {α β : Type} [DecidableEq α] {before after : List (α × β)} {entry : α × β}
    (hkeys : ((before ++ entry :: after).map Prod.fst).Nodup) :
    ((before ++ entry :: after).filter fun other => other.1 ≠ entry.1) = before ++ after := by
  rw [map_append, map_cons, nodup_middle, nodup_cons] at hkeys
  have hother : ∀ other ∈ before ++ after, other.1 ≠ entry.1 := by
    intro other hmem hsame
    apply hkeys.1
    rw [← hsame, ← map_append]
    exact mem_map_of_mem hmem
  rw [filter_append, filter_cons_of_neg (by simp), ← filter_append]
  apply filter_eq_self.mpr
  intro other hmem
  exact decide_eq_true (hother other hmem)

/-- A layer whose tables hold exactly these insertions. -/
structure Layer.Holds (layer : Layer κ V) (placed : List (Placed κ V)) : Prop where
  named : ∀ table, (layer.named table).data = namedAt table (placed.map Placed.insertion)
  anonymous : ∀ table, (layer.anonymous table).items = itemsAt table placed
  names : ∀ table, ((namedAt table (placed.map Placed.insertion)).map Prod.fst).Nodup
  ids : ∀ table, ((itemsAt table placed).map Prod.fst).Nodup
  bound : ∀ table, ∀ id ∈ (itemsAt table placed).map Prod.fst,
    id ≤ (layer.anonymous table).next

theorem holds_empty : ({} : Layer κ V).Holds [] where
  named := fun _ => rfl
  anonymous := fun _ => rfl
  names := fun _ => nodup_nil
  ids := fun _ => nodup_nil
  bound := fun _ _ hid => nomatch hid

namespace Layer.Holds

variable {layer : Layer κ V} {placed before after : List (Placed κ V)}

section
variable (hlayer : layer.Holds placed)
include hlayer

theorem view_eq : layer.view = viewOf (placed.map Placed.insertion) := by
  apply LayerView.ext
  · funext table
    exact hlayer.named table
  · funext table
    simp only [Layer.view, viewOf, valuesAt_insertions, hlayer.anonymous]

theorem isEmpty_iff [Fintype κ] : layer.isEmpty = true ↔ placed = [] := by
  simp only [Layer.isEmpty, decide_eq_true_eq, hlayer.named, hlayer.anonymous]
  constructor
  · intro hempty
    cases placed with
    | nil => rfl
    | cons first rest =>
      cases first with
      | named table name value =>
        simpa [Placed.insertion, Insertion.entry?] using (hempty table).1
      | anonymous table id value =>
        simpa [Placed.item?] using (hempty table).2
  · rintro rfl table
    exact ⟨rfl, rfl⟩

theorem insert {table : κ} {name : String} (value : V)
    (hfree : ∀ entry ∈ (layer.named table).data, entry.1 ≠ name) : Layer.Holds
      { layer with
        named := update layer.named table
          { data := (layer.named table).data ++ [(name, value)] } }
      (placed ++ [.named table name value]) where
  named := by
    intro other
    by_cases hother : table = other
    · subst hother
      simp [hlayer.named, Placed.insertion, Insertion.entry?]
    · simp [hlayer.named, Placed.insertion, Insertion.entry?, hother, Ne.symm hother]
  anonymous := by
    intro other
    simp [hlayer.anonymous, Placed.item?]
  names := by
    intro other
    by_cases hother : table = other
    · subst hother
      rw [hlayer.named] at hfree
      have hnew : ∀ used ∈ (namedAt table (placed.map Placed.insertion)).map Prod.fst,
          used ≠ name := by
        intro used hused
        obtain ⟨entry, hentry, rfl⟩ := mem_map.mp hused
        exact hfree entry hentry
      simp only [map_append, map_cons, map_nil, Placed.insertion, namedAt_append,
        namedAt_cons, namedAt_nil, Insertion.entry?, if_true, Option.toList_some, append_nil]
      refine nodup_append.mpr ⟨hlayer.names table, nodup_singleton _, ?_⟩
      intro used hused other hnamed
      rw [mem_singleton.mp hnamed]
      exact hnew used hused
    · simpa [Placed.insertion, Insertion.entry?, hother] using hlayer.names other
  ids := by
    intro other
    simpa [Placed.item?] using hlayer.ids other
  bound := by
    intro other id hid
    apply hlayer.bound other id
    simpa [Placed.item?] using hid

theorem append (table : κ) (value : V) : Layer.Holds
      { layer with
        anonymous := update layer.anonymous table
          ((layer.anonymous table).append value).1 }
      (placed ++ [.anonymous table ((layer.anonymous table).next + 1) value]) where
  named := by
    intro other
    simp [hlayer.named, Placed.insertion, Insertion.entry?]
  anonymous := by
    intro other
    by_cases hother : table = other
    · subst hother
      simp [hlayer.anonymous, Placed.item?, AnonymousEntries.append]
    · simp [hlayer.anonymous, Placed.item?, hother, Ne.symm hother]
  names := by
    intro other
    simpa [Placed.insertion, Insertion.entry?] using hlayer.names other
  ids := by
    intro other
    by_cases hother : table = other
    · subst hother
      simp only [itemsAt_append, itemsAt_cons, itemsAt_nil, Placed.item?, if_true,
        Option.toList_some, append_nil, map_append, map_cons, map_nil]
      refine nodup_append.mpr ⟨hlayer.ids table, nodup_singleton _, ?_⟩
      intro used hused other hnext
      have hbound := hlayer.bound table used hused
      rw [mem_singleton.mp hnext]
      omega
    · simpa [Placed.item?, hother] using hlayer.ids other
  bound := by
    intro other id hid
    by_cases hother : table = other
    · subst hother
      simp only [update_self, AnonymousEntries.append]
      simp only [itemsAt_append, itemsAt_cons, itemsAt_nil, Placed.item?, if_true,
        Option.toList_some, append_nil, map_append, map_cons, map_nil,
        mem_append, mem_singleton] at hid
      rcases hid with hold | hnew
      · exact (hlayer.bound table id hold).trans (Nat.le_succ _)
      · exact hnew.le
    · have hbound : id ≤ (layer.anonymous other).next := by
        apply hlayer.bound other id
        simpa [Placed.item?, hother] using hid
      simpa [Ne.symm hother] using hbound

theorem apply {insertion : Insertion κ V} {next : Layer κ V} {undo : Undo κ V}
    (happly : layer.apply insertion = some (next, undo)) :
    next.Holds (placed ++ [undo.placed]) ∧ undo.active = true ∧
      undo.placed.insertion = insertion := by
  cases insertion with
  | insert table name value =>
    simp only [Layer.apply, NamedEntries.insert, Option.map_eq_some_iff,
      Option.ite_none_left_eq_some, Prod.mk.injEq] at happly
    obtain ⟨entries, ⟨hfree, hentries⟩, rfl, rfl⟩ := happly
    cases hentries
    simp only [any_eq_true, beq_iff_eq, not_exists, not_and] at hfree
    exact ⟨hlayer.insert value hfree, rfl, rfl⟩
  | append table value =>
    cases happly
    exact ⟨hlayer.append table value, rfl, rfl⟩

end

theorem remove {entry : Placed κ V} (hlayer : layer.Holds (before ++ entry :: after)) :
    (layer.remove entry).Holds (before ++ after) := by
  have hrest : (before ++ after).Sublist (before ++ entry :: after) :=
    (List.Sublist.refl before).append (sublist_cons_self entry after)
  have hids : ∀ table, ((itemsAt table (before ++ after)).map Prod.fst).Sublist
      ((itemsAt table (before ++ entry :: after)).map Prod.fst) := fun table =>
    (hrest.filterMap _).map Prod.fst
  have hnames : ∀ table,
      ((namedAt table ((before ++ after).map Placed.insertion)).map Prod.fst).Sublist
        ((namedAt table ((before ++ entry :: after).map Placed.insertion)).map Prod.fst) :=
    fun table => ((hrest.map _).filterMap _).map Prod.fst
  cases entry with
  | named table name value =>
    refine ⟨?_, ?_, fun other => List.Nodup.sublist (hnames other) (hlayer.names other),
      fun other => List.Nodup.sublist (hids other) (hlayer.ids other),
      fun other id hid => hlayer.bound other id ((hids other).subset hid)⟩
    · intro other
      have hdata := hlayer.named other
      have hdistinct := hlayer.names other
      simp only [map_append, map_cons, Placed.insertion, namedAt_append, namedAt_cons,
        Insertion.entry?] at hdata hdistinct ⊢
      by_cases hother : table = other
      · subst hother
        simp only [if_true, Option.toList_some, singleton_append] at hdata hdistinct
        simp only [Layer.remove, update_self, NamedEntries.remove, hdata]
        have hkeys : ((namedAt table (before.map Placed.insertion) ++
            (name, value) :: namedAt table (after.map Placed.insertion)).map Prod.fst).Nodup := by
          simpa using hdistinct
        exact filter_key_ne hkeys
      · simpa [Layer.remove, hother, Ne.symm hother] using hdata
    · intro other
      simpa [Layer.remove, Placed.item?] using hlayer.anonymous other
  | anonymous table id value =>
    refine ⟨?_, ?_, fun other => List.Nodup.sublist (hnames other) (hlayer.names other),
      fun other => List.Nodup.sublist (hids other) (hlayer.ids other), ?_⟩
    · intro other
      simpa [Layer.remove, Placed.insertion, Insertion.entry?] using hlayer.named other
    · intro other
      have hitems := hlayer.anonymous other
      have hdistinct := hlayer.ids other
      simp only [itemsAt_append, itemsAt_cons, Placed.item?] at hitems hdistinct ⊢
      by_cases hother : table = other
      · subst hother
        simp only [if_true, Option.toList_some, singleton_append] at hitems hdistinct
        simp only [Layer.remove, update_self, AnonymousEntries.remove, hitems]
        exact filter_key_ne hdistinct
      · simpa [Layer.remove, hother, Ne.symm hother] using hitems
    · intro other used hused
      have hbound := hlayer.bound other used ((hids other).subset hused)
      by_cases hother : other = table
      · subst hother
        simpa [Layer.remove, AnonymousEntries.remove] using hbound
      · simpa [Layer.remove, hother] using hbound

theorem undoAll (after : List (Placed κ V)) {undos : List (Undo κ V)}
    (hactive : ∀ undo ∈ undos, undo.active = true)
    (hlayer : layer.Holds (before ++ undos.map Undo.placed ++ after)) :
    (undoAll layer undos).Holds (before ++ after) := by
  induction undos using List.reverseRecOn generalizing layer after with
  | nil => simpa [Scoped.undoAll] using hlayer
  | append_singleton undos last ih =>
    have hlast : last.active = true := hactive last (mem_append_right _ (by simp))
    have hremoved : (layer.remove last.placed).Holds
        (before ++ undos.map Undo.placed ++ after) := by
      apply Layer.Holds.remove
      simpa using hlayer
    have hstep : Scoped.undoAll layer (undos ++ [last]) =
        Scoped.undoAll (layer.remove last.placed) undos := by
      simp [Scoped.undoAll, Undo.run, hlast]
    rw [hstep]
    exact ih _ (fun undo hmem => hactive undo (mem_append_left _ hmem)) hremoved

/-- What an action's insertions leave: all of them behind what the layer held, or nothing. -/
theorem runInsertions (insertions : List (Insertion κ V)) {undos : List (Undo κ V)}
    (hactive : ∀ undo ∈ undos, undo.active = true)
    (hlayer : layer.Holds (placed ++ undos.map Undo.placed)) :
    ((runInsertions layer insertions undos).2 = none ∧
        (runInsertions layer insertions undos).1.Holds placed) ∨
      ∃ made, (runInsertions layer insertions undos).2 = some made ∧
        (∀ undo ∈ made, undo.active = true) ∧
        (runInsertions layer insertions undos).1.Holds (placed ++ made.map Undo.placed) ∧
        made.map (fun undo => undo.placed.insertion) =
          undos.map (fun undo => undo.placed.insertion) ++ insertions := by
  induction insertions generalizing layer undos with
  | nil => exact .inr ⟨undos, rfl, hactive, hlayer, (append_nil _).symm⟩
  | cons insertion rest ih =>
    simp only [Scoped.runInsertions]
    cases happly : layer.apply insertion with
    | none =>
      refine .inl ⟨rfl, ?_⟩
      have hback := Layer.Holds.undoAll [] hactive (by simpa using hlayer)
      simpa using hback
    | some result =>
      obtain ⟨next, undo⟩ := result
      obtain ⟨hnext, hundo, hinsertion⟩ := hlayer.apply happly
      have hall : ∀ entry ∈ undos ++ [undo], entry.active = true := by
        intro entry hentry
        rcases mem_append.mp hentry with hold | hnew
        · exact hactive entry hold
        · exact mem_singleton.mp hnew ▸ hundo
      rcases ih hall (by simpa using hnext) with hnone | ⟨made, hmade, hkept, hheld, hplaced⟩
      · exact .inl hnone
      · refine .inr ⟨made, hmade, hkept, hheld, ?_⟩
        rw [hplaced]
        simp [hinsertion]

theorem runAction (action : Action κ V) (hlayer : layer.Holds placed) :
    ((action.run layer).2 = none ∧ (action.run layer).1.Holds placed) ∨
      ∃ made, (action.run layer).2 = some made ∧ action.fails = false ∧
        (∀ undo ∈ made, undo.active = true) ∧
        (action.run layer).1.Holds (placed ++ made.map Undo.placed) ∧
        made.map (fun undo => undo.placed.insertion) = action.insertions := by
  have hstart : layer.Holds (placed ++ ([] : List (Undo κ V)).map Undo.placed) := by
    simpa using hlayer
  unfold Action.run
  have hnil : ∀ undo ∈ ([] : List (Undo κ V)), undo.active = true := by
    intro undo hundo
    cases hundo
  rcases Layer.Holds.runInsertions action.insertions hnil hstart with
    ⟨hnone, hheld⟩ | ⟨made, hmade, hactive, hheld, hplaced⟩
  · refine .inl ?_
    generalize Scoped.runInsertions layer action.insertions [] = outcome at hnone hheld
    obtain ⟨changed, result⟩ := outcome
    obtain rfl : result = none := hnone
    exact ⟨rfl, hheld⟩
  · generalize Scoped.runInsertions layer action.insertions [] = outcome at hmade hheld
    obtain ⟨changed, result⟩ := outcome
    obtain rfl : result = some made := hmade
    cases hfails : action.fails with
    | true =>
      refine .inl ⟨by simp, ?_⟩
      have hback := Layer.Holds.undoAll [] hactive (by simpa using hheld)
      simpa using hback
    | false =>
      exact .inr ⟨made, by simp, rfl, hactive, by simpa using hheld, hplaced⟩

theorem runInsertions_isSome (insertions : List (Insertion κ V)) (undos : List (Undo κ V))
    (hlayer : layer.Holds placed)
    (hnames : ∀ table,
      ((namedAt table (placed.map Placed.insertion ++ insertions)).map Prod.fst).Nodup) :
    (Scoped.runInsertions layer insertions undos).2.isSome = true := by
  induction insertions generalizing layer placed undos with
  | nil => rfl
  | cons insertion rest ih =>
    have hmore : ∀ undo : Undo κ V, undo.placed.insertion = insertion → ∀ table,
        ((namedAt table ((placed ++ [undo.placed]).map Placed.insertion ++ rest)).map
          Prod.fst).Nodup := by
      intro undo hundo table
      simpa [hundo] using hnames table
    simp only [Scoped.runInsertions]
    cases happly : layer.apply insertion with
    | none =>
      cases insertion with
      | append table value => cases happly
      | insert table name value =>
        simp only [Layer.apply, NamedEntries.insert, Option.map_eq_none_iff,
          ite_eq_left_iff, reduceCtorEq, imp_false, not_not, any_eq_true, beq_iff_eq,
          hlayer.named] at happly
        obtain ⟨entry, hentry, hname⟩ := happly
        have hdistinct := hnames table
        simp only [namedAt_append, namedAt_cons, Insertion.entry?, if_true,
          Option.toList_some, singleton_append, map_append, map_cons] at hdistinct
        have hapart := (nodup_append.mp hdistinct).2.2
        exact absurd hname (hapart entry.1 (mem_map_of_mem hentry) name
          mem_cons_self)
    | some result =>
      obtain ⟨next, undo⟩ := result
      obtain ⟨hnext, -, hundo⟩ := hlayer.apply happly
      exact ih _ hnext (hmore undo hundo)

end Layer.Holds

end Keel.Scoped
