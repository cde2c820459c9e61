import Mathlib.Data.List.Nodup
import Mathlib.Data.List.Perm.Subperm
import Mathlib.Logic.Relation
import Offside.Proofs.Outcome
import Offside.Types.Table

/-! Tables of types hold no circles.

A name leads to a type (`TypeTable.Leads`) when following aliases from it ends there. A table is grounded
when every name in it leads to a type. The table that programs start with is grounded, and all operations
keep tables so: they bind names that are free, to types or to names that are bound, and what a table takes
in from another one leads on inside the two (`Grounded.absorb`). So the two walks over aliases, which
count their steps, are never cut short. -/
namespace Offside

open List

namespace Dictionary

variable {α : Type}

theorem mem_keys_of_find {name : String} {value : α} {entries : List (String × α)}
    (h : find name entries = some value) : name ∈ entries.map Prod.fst := by
  induction entries with
  | nil => cases h
  | cons entry rest ih =>
    obtain ⟨n, v⟩ := entry
    by_cases hn : n = name
    · simp [hn]
    · simp only [find, hn, if_false] at h
      exact mem_cons_of_mem _ (ih h)

/-- Names that all stand for something are no more than there are entries. -/
theorem length_le_size {d : Dictionary α} {names : List String} (hnodup : names.Nodup)
    (h : ∀ name ∈ names, (d.get? name).isSome) : names.length ≤ d.size := by
  have hsub : names ⊆ d.entries.map Prod.fst := by
    intro name hname
    obtain ⟨value, hvalue⟩ := Option.isSome_iff_exists.mp (h name hname)
    exact mem_keys_of_find hvalue
  calc names.length ≤ (d.entries.map Prod.fst).length := (hnodup.subperm hsub).length_le
    _ = d.size := length_map _

end Dictionary

namespace TypeTable

variable {name other : String} {t : TypeTable}

/-! ### Where a name leads -/

/-- Following aliases from a name passes the given names and ends at a type. -/
inductive Leads (t : TypeTable) : String → List String → ValueType → Prop where
  | base {name : String} {type : ValueType} : t.entry? name = some (.base type) → Leads t name [] type
  | step {name next : String} {passed : List String} {type : ValueType} :
      t.entry? name = some (.alias next) → Leads t next passed type →
      Leads t name (next :: passed) type

/-- Every name in the table leads to a type. -/
def Grounded (t : TypeTable) : Prop := ∀ name, t.contains name = true → ∃ passed type, t.Leads name passed type

/-- The first name is an alias of the second. -/
def IsAlias (t : TypeTable) (name target : String) : Prop := t.entry? name = some (.alias target)

theorem contains_iff : t.contains name ↔ ∃ entry, t.entry? name = some entry := Option.isSome_iff_exists

theorem not_contains_iff : t.contains name = false ↔ t.entry? name = none := by
  simp [contains, entry?, Dictionary.contains]

namespace Leads

variable {t t' : TypeTable} {name next : String} {passed passed' : List String} {type type' : ValueType}

variable (h : t.Leads name passed type)
include h

theorem contains : t.contains name := by
  cases h with
  | base hentry => exact contains_iff.mpr ⟨_, hentry⟩
  | step hentry _ => exact contains_iff.mpr ⟨_, hentry⟩

/-- There is one way to go. -/
theorem unique (h' : t.Leads name passed' type') : passed' = passed ∧ type' = type := by
  induction h generalizing passed' with
  | base hentry =>
    cases h' with
    | base hentry' => simp_all
    | step hentry' _ => simp_all
  | step hentry _ ih =>
    cases h' with
    | base hentry' => simp_all
    | step hentry' hrest =>
      rw [hentry] at hentry'
      cases hentry'
      obtain ⟨hpassed, htype⟩ := ih hrest
      exact ⟨by rw [hpassed], htype⟩

/-- An alias leads on to the same type by a shorter way. -/
theorem ofAlias (halias : t.IsAlias name next) : ∃ rest, passed = next :: rest ∧ t.Leads next rest type := by
  rw [IsAlias] at halias
  cases h with
  | base hentry => simp_all
  | step hentry hrest =>
    rw [hentry] at halias
    cases halias
    exact ⟨_, rfl, hrest⟩

theorem ofTransGen {last : String} (hto : Relation.TransGen t.IsAlias name last) :
    ∃ rest, t.Leads last rest type ∧ rest.length < passed.length := by
  induction hto with
  | single halias =>
    obtain ⟨rest, heq, hrest⟩ := h.ofAlias halias
    exact ⟨rest, hrest, by simp [heq]⟩
  | tail _ halias ih =>
    obtain ⟨rest, hrest, hlt⟩ := ih
    obtain ⟨rest', heq, hrest'⟩ := hrest.ofAlias halias
    exact ⟨rest', hrest', by simp [heq] at hlt; omega⟩

/-- From every name that is passed the rest of the way is shorter. -/
theorem ofMem (hmem : other ∈ passed) : ∃ rest, t.Leads other rest type ∧ rest.length < passed.length := by
  induction h with
  | base _ => cases hmem
  | @step _ next _ _ _ hrest ih =>
    by_cases heq : other = next
    · exact ⟨_, heq ▸ hrest, Nat.lt_succ_self _⟩
    · obtain ⟨rest, hrest, hlt⟩ := ih ((mem_cons.mp hmem).resolve_left heq)
      exact ⟨rest, hrest, Nat.lt_succ_of_lt hlt⟩

/-- No name is passed twice. -/
theorem nodup : (name :: passed).Nodup := by
  have hfirst : ∀ {name passed}, t.Leads name passed type → name ∉ passed := by
    intro name passed h hmem
    obtain ⟨rest, hrest, hlt⟩ := h.ofMem hmem
    rw [(h.unique hrest).1] at hlt
    exact Nat.lt_irrefl _ hlt
  induction h with
  | base _ => simp
  | step hentry hrest ih => exact nodup_cons.mpr ⟨hfirst (.step hentry hrest), ih hfirst⟩

theorem contains_of_mem : ∀ other ∈ name :: passed, t.contains other := by
  intro other hmem
  rcases mem_cons.mp hmem with heq | hmem
  · exact heq ▸ h.contains
  · obtain ⟨rest, hrest, _⟩ := h.ofMem hmem
    exact hrest.contains

/-- The way is shorter than the table. -/
theorem length_lt_size : passed.length < t.entries.size := Dictionary.length_le_size h.nodup h.contains_of_mem

/-- A table that says the same of all names bound so far leads them the same way. -/
theorem extend (hkeep : ∀ other entry, t.entry? other = some entry → t'.entry? other = some entry) :
    t'.Leads name passed type := by
  induction h with
  | base hentry => exact .base (hkeep _ _ hentry)
  | step hentry _ ih => exact .step (hkeep _ _ hentry) ih

/-- The walk that looks for a type finds it, if it may take enough steps and has seen none of the names
on the way. -/
theorem follow {fuel : Nat} {seen : List String}
    (hfuel : passed.length < fuel) (hseen : ∀ other ∈ name :: passed, other ∉ seen) :
    t.follow fuel seen name = .ok type := by
  have hnodup := h.nodup
  induction h generalizing fuel seen with
  | base hentry =>
    obtain ⟨fuel, rfl⟩ : ∃ n, fuel = n + 1 := ⟨fuel - 1, by simp at hfuel; omega⟩
    simp_all [TypeTable.follow]
  | @step name next passed type hentry hrest ih =>
    obtain ⟨fuel, rfl⟩ : ∃ n, fuel = n + 1 := ⟨fuel - 1, by simp at hfuel; omega⟩
    have hname : name ∉ seen := hseen name mem_cons_self
    obtain ⟨hnew, hnodup⟩ := nodup_cons.mp hnodup
    have hlater : ∀ other ∈ next :: passed, other ∉ name :: seen := by
      intro other hmem hin
      rcases mem_cons.mp hin with heq | hin
      · exact hnew (heq ▸ hmem)
      · exact hseen other (mem_cons_of_mem _ hmem) hin
    have := ih (Nat.lt_of_succ_lt_succ hfuel) hlater hnodup
    simp [TypeTable.follow, hname, hentry, this]

theorem resolve : t.resolve name = .ok type :=
  h.follow (Nat.lt_of_lt_of_le h.length_lt_size (Nat.le_add_right _ 2)) (by simp)

/-- The walk that collects the names on the way comes to its end. -/
theorem aliasesFrom {fuel : Nat} (hfuel : passed.length ≤ fuel) : t.aliasesFrom fuel name = passed := by
  induction h generalizing fuel with
  | base hentry => cases fuel <;> simp [TypeTable.aliasesFrom, hentry]
  | step hentry _ ih =>
    obtain ⟨fuel, rfl⟩ : ∃ n, fuel = n + 1 := ⟨fuel - 1, by simp at hfuel; omega⟩
    simp [TypeTable.aliasesFrom, hentry, ih (Nat.le_of_succ_le_succ hfuel)]

end Leads

namespace Grounded

variable {t other : TypeTable} {name : String}

variable (h : t.Grounded)
include h

theorem target_contains {target : String} (halias : t.IsAlias name target) : t.contains target := by
  obtain ⟨passed, type, hleads⟩ := h name (contains_iff.mpr ⟨_, halias⟩)
  obtain ⟨rest, _, hrest⟩ := hleads.ofAlias halias
  exact hrest.contains

theorem acyclic (name : String) : ¬ Relation.TransGen t.IsAlias name name := by
  intro hcircle
  obtain ⟨next, halias, _⟩ := Relation.TransGen.head'_iff.mp hcircle
  obtain ⟨passed, type, hleads⟩ := h name (contains_iff.mpr ⟨_, halias⟩)
  obtain ⟨rest, hrest, hlt⟩ := hleads.ofTransGen hcircle
  rw [(hleads.unique hrest).1] at hlt
  exact Nat.lt_irrefl _ hlt

/-- The unguarded walk over aliases stops by itself within the size of the table. -/
theorem aliasesFrom_stops (name : String) {fuel : Nat} (hfuel : t.entries.size ≤ fuel) :
    t.aliasesFrom fuel name = t.aliasesFrom t.entries.size name := by
  by_cases hname : t.contains name
  · obtain ⟨passed, type, hleads⟩ := h name hname
    have hlt := hleads.length_lt_size
    rw [hleads.aliasesFrom (by omega), hleads.aliasesFrom (by omega)]
  · have hnone : t.entry? name = none := not_contains_iff.mp (by simpa using hname)
    have hstop : ∀ fuel, t.aliasesFrom fuel name = [] := by
      intro fuel
      cases fuel <;> simp [TypeTable.aliasesFrom, hnone]
    rw [hstop, hstop]

theorem resolve_ok_iff (name : String) : (∃ type, t.resolve name = .ok type) ↔ t.contains name := by
  constructor
  · intro hresolve
    by_contra hname
    have hnone : t.entry? name = none := not_contains_iff.mp (by simpa using hname)
    simp [resolve, follow, hnone] at hresolve
  · intro hname
    obtain ⟨passed, type, hleads⟩ := h name hname
    exact ⟨type, hleads.resolve⟩

/-- What is wrong with a name that cannot be resolved is that it is not in the table. -/
theorem resolve_error {fault : TypeFault} (hresolve : t.resolve name = .error fault) : fault = .unknown name := by
  by_cases hname : t.contains name
  · obtain ⟨type, hok⟩ := (h.resolve_ok_iff name).mpr hname
    rw [hok] at hresolve
    cases hresolve
  · have hnone : t.entry? name = none := not_contains_iff.mp (by simpa using hname)
    simp only [resolve, follow, hnone, contains_nil, Bool.false_eq_true, if_false] at hresolve
    cases hresolve
    rfl

/-- A table that says the same of all names bound so far resolves them to the same types. -/
theorem resolve_extend {t' : TypeTable} (hkeep : ∀ n entry, t.entry? n = some entry → t'.entry? n = some entry)
    (hname : t.contains name) : t'.resolve name = t.resolve name := by
  obtain ⟨passed, type, hleads⟩ := h name hname
  rw [hleads.resolve, (hleads.extend hkeep).resolve]

end Grounded

/-! ### Operations -/

theorem entry_insert (t : TypeTable) (name other : String) (entry : TypeEntry) :
    entry? ⟨t.entries.insert name entry⟩ other = if name = other then some entry else t.entry? other :=
  Dictionary.get?_insert _ _ _ _

theorem entry_absorb (t other : TypeTable) (name : String) :
    entry? (t.absorb other) name = (t.entry? name).or (other.entry? name) :=
  Dictionary.get?_absorb _ _ _

/-- Binding a name that is free leaves the others as they are. -/
theorem entry_insert_of_free (hfree : t.contains name = false)
    (entry : TypeEntry) {e : TypeEntry} (h : t.entry? other = some e) :
    entry? ⟨t.entries.insert name entry⟩ other = some e := by
  rw [entry_insert, if_neg]
  · exact h
  · intro heq
    rw [heq, not_contains_iff, h] at hfree
    cases hfree

theorem grounded_builtin : builtin.Grounded := by
  intro name hname
  obtain ⟨entry, hentry⟩ := contains_iff.mp hname
  rcases entry with type | target
  · exact ⟨[], type, .base hentry⟩
  · have hall : ∀ entries : List Scalar,
        Dictionary.find name (entries.map fun s => (s.name, TypeEntry.base (.scalar s))) ≠ some (.alias target) := by
      intro entries
      induction entries with
      | nil => simp [Dictionary.find]
      | cons s rest ih =>
        simp only [map_cons, Dictionary.find]
        split
        · simp
        · exact ih
    exact absurd hentry (hall Scalar.builtin)

namespace Grounded

variable {t other : TypeTable} {name : String}

theorem insert_base (h : t.Grounded) (name : String) (type : ValueType) :
    Grounded ⟨t.entries.insert name (.base type)⟩ := by
  have hthere : ∀ {n passed ty}, t.Leads n passed ty →
      ∃ passed' ty', Leads ⟨t.entries.insert name (.base type)⟩ n passed' ty' := by
    intro n passed ty hleads
    induction hleads with
    | @base n ty hentry =>
      by_cases heq : name = n
      · exact ⟨[], type, .base (by simp [entry_insert, heq])⟩
      · exact ⟨[], ty, .base (by simp [entry_insert, heq, hentry])⟩
    | @step n next _ _ hentry _ ih =>
      by_cases heq : name = n
      · exact ⟨[], type, .base (by simp [entry_insert, heq])⟩
      · obtain ⟨passed', ty', hnext⟩ := ih
        exact ⟨next :: passed', ty', .step (by simp [entry_insert, heq, hentry]) hnext⟩
  intro n hn
  by_cases heq : name = n
  · exact ⟨[], type, .base (by simp [entry_insert, heq])⟩
  · obtain ⟨entry, hentry⟩ := contains_iff.mp hn
    rw [entry_insert, if_neg heq] at hentry
    obtain ⟨passed, ty, hleads⟩ := h n (contains_iff.mpr ⟨entry, hentry⟩)
    exact hthere hleads

theorem insert_alias (h : t.Grounded) {name target : String} (hfree : t.contains name = false)
    (htarget : t.contains target) :
    Grounded ⟨t.entries.insert name (.alias target)⟩ := by
  intro n hn
  by_cases heq : name = n
  · obtain ⟨passed, type, hleads⟩ := h target htarget
    refine ⟨target :: passed, type, .step (by simp [entry_insert, heq]) ?_⟩
    exact hleads.extend fun _ _ hentry => entry_insert_of_free hfree _ hentry
  · obtain ⟨entry, hentry⟩ := contains_iff.mp hn
    rw [entry_insert, if_neg heq] at hentry
    obtain ⟨passed, type, hleads⟩ := h n (contains_iff.mpr ⟨entry, hentry⟩)
    exact ⟨passed, type, hleads.extend fun _ _ he => entry_insert_of_free hfree _ he⟩

/-- A name that is taken in leads on in the other table until it meets a name bound here, which leads to
a type on its own. -/
theorem absorb (h : t.Grounded) (hother : other.Grounded) : (t.absorb other).Grounded := by
  have hkeep : ∀ n entry, t.entry? n = some entry → entry? (t.absorb other) n = some entry := by
    intro n entry hentry
    simp [entry_absorb, hentry]
  have hhere : ∀ n, t.contains n → ∃ passed type, (t.absorb other).Leads n passed type := by
    intro n hn
    obtain ⟨passed, type, hleads⟩ := h n hn
    exact ⟨passed, type, hleads.extend hkeep⟩
  have hthere : ∀ {n passed type}, other.Leads n passed type →
      ∃ passed' type', (t.absorb other).Leads n passed' type' := by
    intro n passed type hleads
    induction hleads with
    | @base n type hentry =>
      by_cases hn : t.contains n
      · exact hhere n hn
      · have hnone : t.entry? n = none := not_contains_iff.mp (by simpa using hn)
        exact ⟨[], type, .base (by simp [entry_absorb, hnone, hentry])⟩
    | @step n next _ _ hentry _ ih =>
      by_cases hn : t.contains n
      · exact hhere n hn
      · have hnone : t.entry? n = none := not_contains_iff.mp (by simpa using hn)
        obtain ⟨passed', type', hnext⟩ := ih
        exact ⟨next :: passed', type', .step (by simp [entry_absorb, hnone, hentry]) hnext⟩
  intro n hn
  by_cases hn' : t.contains n
  · exact hhere n hn'
  · have hnone : t.entry? n = none := not_contains_iff.mp (by simpa using hn')
    obtain ⟨entry, hentry⟩ := contains_iff.mp hn
    rw [entry_absorb, hnone, Option.none_or] at hentry
    obtain ⟨passed, type, hleads⟩ := hother n (contains_iff.mpr ⟨entry, hentry⟩)
    exact hthere hleads

end Grounded

theorem contains_insert (t : TypeTable) (name : String) (entry : TypeEntry)
    (h : t.contains other) : (⟨t.entries.insert name entry⟩ : TypeTable).contains other := by
  obtain ⟨old, hold⟩ := contains_iff.mp h
  rw [contains_iff, entry_insert]
  split
  · exact ⟨entry, rfl⟩
  · exact ⟨old, hold⟩

/-- A name that was free is bound in the second table, and all else is as in the first. -/
def Enters (t : TypeTable) (name : String) (t' : TypeTable) : Prop :=
  t.contains name = false ∧ ∃ entry, t' = ⟨t.entries.insert name entry⟩

namespace Enters

variable {t t' : TypeTable} {name : String}

theorem contains (h : t.Enters name t') : t'.contains name := by
  obtain ⟨_, entry, rfl⟩ := h
  exact contains_iff.mpr ⟨entry, by rw [entry_insert, if_pos rfl]⟩

theorem keeps (h : t.Enters name t') {entry : TypeEntry}
    (hentry : t.entry? other = some entry) : t'.entry? other = some entry := by
  obtain ⟨hfree, new, rfl⟩ := h
  exact entry_insert_of_free hfree new hentry

end Enters

section

variable {t t' : TypeTable} {name target : String} {type : ValueType}

theorem add_ok (h : t.add name type = .ok t') :
    t.contains name = false ∧ t' = ⟨t.entries.insert name (.base type)⟩ := by
  unfold add at h
  split at h <;> cases h
  exact ⟨by simp_all, rfl⟩

theorem addAlias_ok (h : t.addAlias name target = .ok t') : t.contains name = false ∧ t.contains target ∧
      t' = ⟨t.entries.insert name (.alias target)⟩ := by
  unfold addAlias at h
  split at h
  · cases h
  · split at h
    · cases h
    · split at h
      · cases h
      · dsimp only at h
        split at h <;> cases h
        exact ⟨by simp_all, by simp_all, rfl⟩

theorem addTypedef_ok (h : t.addTypedef name type = .ok t') :
    t.contains name = false ∧ (t' = ⟨t.entries.insert name (.base type)⟩ ∨
      ∃ target, t.contains target ∧ t' = ⟨t.entries.insert name (.alias target)⟩) := by
  unfold addTypedef at h
  split at h
  · obtain ⟨hfree, htarget, rfl⟩ := addAlias_ok h
    exact ⟨hfree, .inr ⟨_, htarget, rfl⟩⟩
  · split at h <;> cases h
    exact ⟨by simp_all, .inl rfl⟩

theorem enters_add (h : t.add name type = .ok t') : t.Enters name t' := ⟨(add_ok h).1, _, (add_ok h).2⟩

theorem enters_addAlias (h : t.addAlias name target = .ok t') : t.Enters name t' :=
  ⟨(addAlias_ok h).1, _, (addAlias_ok h).2.2⟩

theorem enters_addTypedef (h : t.addTypedef name type = .ok t') : t.Enters name t' := by
  obtain ⟨hfree, rfl | ⟨target, _, rfl⟩⟩ := addTypedef_ok h
  · exact ⟨hfree, _, rfl⟩
  · exact ⟨hfree, _, rfl⟩

end

/-- What can be done to a table. -/
inductive Operation where
  | add (name : String) (type : ValueType)
  | complete (name : String) (type : ValueType)
  | addAlias (name target : String)
  | addTypedef (name : String) (type : ValueType)
  | absorb (other : TypeTable)

namespace Operation

variable {op : Operation} {t t' : TypeTable}

/-- The table with the change, or why it cannot be made. -/
def perform (t : TypeTable) : Operation → Except TypeFault TypeTable
  | add name type => t.add name type
  | complete name type => .ok (t.complete name type)
  | addAlias name target => t.addAlias name target
  | addTypedef name type => t.addTypedef name type
  | absorb other => .ok (t.absorb other)

/-- Writes an entry into the table that is being worked on. -/
def write (name : String) (entry : TypeEntry) : EStateM TypeFault TypeTable Unit :=
  modify fun t => ⟨t.entries.insert name entry⟩

/-- A test that an operation has to pass before it goes on. -/
def refuse (bad : Bool) (fault : TypeFault) : EStateM TypeFault TypeTable Unit :=
  if bad then throw fault else pure ()

def runAlias (name target : String) : EStateM TypeFault TypeTable Unit := do
  refuse (name = target) (.cycle (name ++ " -> " ++ target))
  refuse ((← get).contains name) (.rebinding name)
  refuse (!(← get).contains target) (.unknown target)
  let passed := (← get).aliasesFrom ((← get).entries.size + 1) target
  refuse (passed.contains name) (.cycle (String.intercalate " -> " (name :: target :: upTo name passed)))
  write name (.alias target)

/-- The same done in place, on a table that is being worked on: the tests, then the entry. -/
def run : Operation → EStateM TypeFault TypeTable Unit
  | add name type => do
    refuse ((← get).contains name) (.duplicate name)
    write name (.base type)
  | complete name type => write name (.base type)
  | addAlias name target => runAlias name target
  | addTypedef name type => do
    match (← get).nameOf type with
    | some target => runAlias name target
    | none =>
      refuse ((← get).contains name) (.rebinding name)
      write name (.base type)
  | absorb other => modify (·.absorb other)

theorem refuse_bind_run (bad : Bool) (fault : TypeFault) (rest : EStateM TypeFault TypeTable Unit)
    (t : TypeTable) : ((do refuse bad fault; rest : EStateM TypeFault TypeTable Unit)).run t =
      if bad then .error fault t else rest.run t := by
  cases bad <;> rfl

theorem get_bind_run (rest : TypeTable → EStateM TypeFault TypeTable Unit) (t : TypeTable) :
    (get >>= rest).run t = (rest t).run t := rfl

/-- An outcome of work in place, from the table with the change. -/
def outcome (t : TypeTable) : Except TypeFault TypeTable → EStateM.Result TypeFault TypeTable Unit
  | .ok t' => .ok () t'
  | .error fault => .error fault t

theorem outcome_ite (bad : Prop) [Decidable bad] (fault : TypeFault) (rest : Except TypeFault TypeTable) :
    outcome t (if bad then .error fault else rest) = if bad then .error fault t else outcome t rest := by
  split <;> rfl

theorem runAlias_run (name target : String) (t : TypeTable) :
    (runAlias name target).run t = outcome t (t.addAlias name target) := by
  unfold runAlias TypeTable.addAlias
  simp only [refuse_bind_run, get_bind_run, outcome_ite, decide_eq_true_eq]
  rfl

/-- Done in place, an operation that fails has written nothing. -/
theorem run_run (op : Operation) (t : TypeTable) : op.run.run t = outcome t (op.perform t) := by
  cases op with
  | add name type =>
    show _ = outcome t (if _ then _ else _)
    rw [outcome_ite]
    exact refuse_bind_run _ _ _ t
  | complete name type => rfl
  | addAlias name target => exact runAlias_run name target t
  | addTypedef name type =>
    show (match t.nameOf type with
      | some target => runAlias name target
      | none => do
        refuse ((← get).contains name) (.rebinding name)
        write name (.base type) : EStateM TypeFault TypeTable Unit).run t =
      outcome t (match t.nameOf type with
        | some target => t.addAlias name target
        | none => if t.contains name then .error (.rebinding name) else .ok ⟨t.entries.insert name (.base type)⟩)
    cases t.nameOf type with
    | some target => exact runAlias_run name target t
    | none =>
      dsimp only
      rw [outcome_ite]
      exact refuse_bind_run _ _ _ t
  | absorb other => rfl

/-- The name whose entry may be replaced. -/
def completes? : Operation → Option String
  | complete name _ => some name
  | _ => none

/-- What an operation that goes through does: it binds one name, or takes in another table. -/
theorem perform_ok (h : op.perform t = .ok t') :
    (∃ name type, op.completes? = some name ∧ t' = ⟨t.entries.insert name (.base type)⟩) ∨
    (∃ name type, t.contains name = false ∧ t' = ⟨t.entries.insert name (.base type)⟩) ∨
    (∃ name target, t.contains name = false ∧ t.contains target ∧ t' = ⟨t.entries.insert name (.alias target)⟩) ∨
    (∃ other, op = .absorb other ∧ t' = t.absorb other) := by
  cases op with
  | add name type => exact .inr (.inl ⟨name, type, add_ok h⟩)
  | complete name type =>
    cases h
    exact .inl ⟨name, type, rfl, rfl⟩
  | addAlias name target => exact .inr (.inr (.inl ⟨name, target, addAlias_ok h⟩))
  | addTypedef name type =>
    obtain ⟨hfree, ht | ⟨target, htarget, ht⟩⟩ := addTypedef_ok h
    · exact .inr (.inl ⟨name, type, hfree, ht⟩)
    · exact .inr (.inr (.inl ⟨name, target, hfree, htarget, ht⟩))
  | absorb other =>
    cases h
    exact .inr (.inr (.inr ⟨other, rfl, rfl⟩))

/-- Only what completes a type changes an entry. -/
theorem perform_keeps (h : op.perform t = .ok t') (hop : op.completes? = none) {entry : TypeEntry}
    (hentry : t.entry? name = some entry) : t'.entry? name = some entry := by
  obtain ⟨_, _, hcompletes, _⟩ | ⟨_, _, hfree, rfl⟩ | ⟨_, _, hfree, _, rfl⟩ | ⟨other, _, rfl⟩ := perform_ok h
  · rw [hop] at hcompletes
    cases hcompletes
  · exact entry_insert_of_free hfree _ hentry
  · exact entry_insert_of_free hfree _ hentry
  · simp [entry_absorb, hentry]

theorem perform_grounded (ht : t.Grounded)
    (hop : ∀ other, op = .absorb other → other.Grounded) (h : op.perform t = .ok t') :
    t'.Grounded := by
  obtain ⟨name, type, _, rfl⟩ | ⟨name, type, _, rfl⟩ | ⟨name, target, hfree, htarget, rfl⟩ |
    ⟨other, heq, rfl⟩ := perform_ok h
  · exact ht.insert_base name type
  · exact ht.insert_base name type
  · exact ht.insert_alias hfree htarget
  · exact ht.absorb (hop other heq)

end Operation

/-- Tables that operations make from the one every program starts with. An operation may fail, and the
next one is then made on what it left. -/
inductive Reachable : TypeTable → Prop where
  | builtin : Reachable builtin
  | after {t : TypeTable} (op : Operation) : Reachable t →
      (∀ other, op = .absorb other → Reachable other) → Reachable (stateAfter op.run t)

theorem Operation.stateAfter_run (op : Operation) (t : TypeTable) :
    stateAfter op.run t = (match op.perform t with | .ok t' => t' | .error _ => t) := by
  unfold stateAfter
  rw [run_run]
  cases op.perform t <;> rfl

theorem Reachable.grounded (h : t.Reachable) : t.Grounded := by
  induction h with
  | builtin => exact grounded_builtin
  | @after t op _ _ ht hother =>
    rw [Operation.stateAfter_run]
    cases hperform : op.perform t with
    | ok t' => exact Operation.perform_grounded ht hother hperform
    | error fault => exact ht

/-- What tables of types promise. -/
structure Sound (t : TypeTable) : Prop where
  /-- An alias stands for a name that is bound. -/
  targets : ∀ name target, t.entry? name = some (.alias target) → t.contains target = true
  acyclic : ∀ name, ¬ Relation.TransGen t.IsAlias name name
  /-- The walk over aliases, which looks out for one name only, ends within the size of the table. -/
  walks : ∀ name fuel, t.entries.size ≤ fuel → t.aliasesFrom fuel name = t.aliasesFrom t.entries.size name
  resolves : ∀ name, (∃ type, t.resolve name = .ok type) ↔ t.contains name = true
  noCircle : ∀ name chain, t.resolve name ≠ .error (.cycle chain)
  /-- A failed operation changes nothing. -/
  failed : ∀ (op : Operation) fault t', op.run.run t = .error fault t' → t' = t
  /-- Names keep their meaning, unless the operation completes a type. -/
  keeps : ∀ (op : Operation) t', op.completes? = none → op.run.run t = .ok () t' →
    ∀ name, t.contains name = true → t'.resolve name = t.resolve name

/-- **Names of types always resolve.** A table made by any sequence of operations, other such tables taken
in included, holds no circle of aliases: exactly the names it binds resolve to a type, and they keep
their meaning. -/
theorem reachable_table_resolves (t : TypeTable) (h : t.Reachable) : t.Sound where
  targets _ _ := h.grounded.target_contains
  acyclic := h.grounded.acyclic
  walks name _ := h.grounded.aliasesFrom_stops name
  resolves := h.grounded.resolve_ok_iff
  noCircle name chain hresolve := by
    have := h.grounded.resolve_error hresolve
    cases this
  failed op fault t' hrun := by
    rw [Operation.run_run] at hrun
    cases hperform : op.perform t with
    | ok made =>
      rw [hperform] at hrun
      cases hrun
    | error reported =>
      rw [hperform] at hrun
      cases hrun
      rfl
  keeps op t' hop hrun name hname := by
    rw [Operation.run_run] at hrun
    cases hperform : op.perform t with
    | ok made =>
      rw [hperform] at hrun
      cases hrun
      exact h.grounded.resolve_extend (fun _ _ => Operation.perform_keeps hperform hop) hname
    | error reported =>
      rw [hperform] at hrun
      cases hrun

/-- One table knows `word` as an alias of `int`, the other knows `count` as an alias of its own `word`,
a struct. Merged, `count` is an alias of the first one's `word`. -/
theorem merged_table_resolves :
    let word := stateAfter (Operation.addAlias "word" "int").run builtin
    let count := stateAfter (Operation.addAlias "count" "word").run
      (stateAfter (Operation.add "word" (.namedStruct "word")).run builtin)
    let merged := stateAfter (Operation.absorb count).run word
    merged.Reachable ∧ (count.resolve "count").toOption.map ValueType.text = some "word" ∧
      (merged.resolve "count").toOption.map ValueType.text = some "int" ∧ merged.Sound := by
  intro word count merged
  have hword : word.Reachable := .after _ .builtin nofun
  have hcount : count.Reachable := .after _ (.after _ .builtin nofun) nofun
  have hmerged : merged.Reachable := by
    refine .after _ hword fun other heq => ?_
    cases heq
    exact hcount
  exact ⟨hmerged, by decide +kernel, by decide +kernel, reachable_table_resolves merged hmerged⟩

end TypeTable

end Offside
