import Simgen.Proofs.Files.Job
import Simgen.Proofs.Toml.Table
import Simgen.Settings
import Mathlib.Data.List.Induction

/-! Settings by layers. A setting is what the last layer that has its key says: the files of a
project come first, the assignments behind them from left to right. What a layer says is read only
where no later layer says something else, so an assignment that is made again later can be left out,
and those of different keys can change places. -/
namespace Simgen.Settings

open Files Toml

section fields

variable {α : Type} {t t' : Table} {key : String} {default a : α} {read : Value → Option α}

/-- What a setting is, by the value that its key has: the default if it has none. -/
def Gives (found : Option Value) (default : α) (read : Value → Option α) (a : α) : Prop :=
  found.elim (a = default) fun v => read v = some a

/-- A key has a value that cannot be read. -/
def Unreadable (found : Option Value) (read : Value → Option α) : Prop :=
  ∃ v, found = some v ∧ read v = none

theorem gives_congr {found found' : Option Value} (h : found.map read = found'.map read) :
    Gives found default read a ↔ Gives found' default read a := by
  cases found with
  | none =>
      obtain rfl : found' = none := Option.map_eq_none_iff.mp h.symm
      rfl
  | some v =>
      obtain ⟨v', rfl, hRead⟩ := Option.map_eq_some_iff.mp h.symm
      simp [Gives, hRead]

theorem unreadable_congr {found found' : Option Value} (h : found.map read = found'.map read) :
    Unreadable found read ↔ Unreadable found' read := by
  have hMap (found : Option Value) : Unreadable found read ↔ found.map read = some none := by
    rw [Option.map_eq_some_iff]
    rfl
  rw [hMap, hMap, h]

theorem field_eq_ok_iff :
    field t key default read = .ok a ↔ Gives (t.lookup key) default read a := by
  unfold field
  cases hFound : t.lookup key with
  | none => simp [Gives, eq_comm]
  | some v =>
      cases hRead : read v with
      | none => simp [Gives, hRead]
      | some b => simp [Gives, hRead]

theorem field_eq_error_iff {fault : SettingsFault} :
    field t key default read = .error fault ↔
      fault = .badValue key ∧ Unreadable (t.lookup key) read := by
  unfold field
  cases hFound : t.lookup key with
  | none => simp [Unreadable]
  | some v =>
      cases hRead : read v with
      | none => simp [Unreadable, hRead, eq_comm]
      | some b => simp [Unreadable, hRead]

theorem field_congr (h : (t.lookup key).map read = (t'.lookup key).map read) :
    field t key default read = field t' key default read := by
  cases hField : field t' key default read with
  | ok a => rw [field_eq_ok_iff, gives_congr h, ← field_eq_ok_iff, hField]
  | error fault => rw [field_eq_error_iff, unreadable_congr h, ← field_eq_error_iff, hField]

end fields

section reading

variable {α : Type} {read : Value → Option α}

/-- No table is read as a value. -/
def Flat (read : Value → Option α) : Prop := ∀ entries, read (.table entries) = none

theorem flat_indentOf? : Flat indentOf? := fun _ => rfl

theorem flat_includesOf? : Flat includesOf? := fun _ => rfl

theorem flat_map_textOf? : Flat fun v => (textOf? v).map some := fun _ => rfl

/-- Tables alone are mixed with what they are laid over, so a value is read as if there were nothing
below it. -/
theorem Flat.read_over (h : Flat read) (upper lower : Value) :
    read (upper.over lower) = read upper := by
  unfold Value.over
  split
  · rw [h, h]
  · rfl

end reading

section layers

/-- What the last of some layers that has a key says. -/
def lastDefined (layers : List Table) (key : String) : Option Value :=
  layers.reverse.findSome? (·.lookup key)

theorem lastDefined_append (lower upper : List Table) (key : String) :
    lastDefined (lower ++ upper) key = (lastDefined upper key).or (lastDefined lower key) := by
  rw [lastDefined, List.reverse_append, List.findSome?_append]
  rfl

theorem lastDefined_singleton (t : Table) (key : String) : lastDefined [t] key = t.lookup key := by
  simp [lastDefined]

theorem lastDefined_cons (t : Table) (layers : List Table) (key : String) :
    lastDefined (t :: layers) key = (lastDefined layers key).or (t.lookup key) := by
  rw [← List.singleton_append, lastDefined_append, lastDefined_singleton]

/-- Layers laid one over the other, the lowest first. -/
def stack (layers : List Table) : Table := layers.foldl (fun lower upper => upper.over lower) []

theorem stack_append_singleton (layers : List Table) (upper : Table) :
    stack (layers ++ [upper]) = upper.over (stack layers) := by
  rw [stack, List.foldl_append]
  rfl

variable {α : Type} {read : Value → Option α} {layers layers' : List Table}

/-- The last layer that has a key decides how the key is read. -/
theorem Flat.map_lookup_stack (hFlat : Flat read) (hLayers : ∀ t ∈ layers, Distinct t)
    (key : String) : ((stack layers).lookup key).map read = (lastDefined layers key).map read := by
  induction layers using List.reverseRecOn with
  | nil => rfl
  | append_singleton layers upper ih =>
      have hLower := ih fun t ht => hLayers t (List.mem_append_left _ ht)
      have hUpper : Distinct upper := hLayers upper (by simp)
      rw [stack_append_singleton, lastDefined_append, lastDefined_singleton]
      cases hFound : upper.lookup key with
      | none => rw [Table.lookup_over_of_none hFound, hLower, Option.none_or]
      | some v =>
          rw [Table.lookup_over_of_some hUpper hFound, Option.some_or, Option.map_some,
            Option.map_some]
          cases (stack layers).lookup key with
          | none => rfl
          | some old => exact congrArg some (hFlat.read_over v old)

/-- The keys that have a meaning. -/
def keys : List String := ["indent", "includes", "runtime_dir"]

/-- Which settings layers make: for each field, what the last layer that has its key says. -/
structure Chosen (layers : List Table) (settings : Settings) : Prop where
  indent : Gives (lastDefined layers "indent") ({} : Settings).indent indentOf? settings.indent
  includes : Gives (lastDefined layers "includes") ({} : Settings).includes includesOf?
    settings.includes
  runtimeDir : Gives (lastDefined layers "runtime_dir") ({} : Settings).runtimeDir
    (fun v => (textOf? v).map some) settings.runtimeDir

/-- The last layer that has a key says something that its field cannot be. -/
inductive Refused (layers : List Table) : String → Prop where
  | indent (h : Unreadable (lastDefined layers "indent") indentOf?) : Refused layers "indent"
  | includes (h : Unreadable (lastDefined layers "includes") includesOf?) :
      Refused layers "includes"
  | runtimeDir (h : Unreadable (lastDefined layers "runtime_dir") fun v => (textOf? v).map some) :
      Refused layers "runtime_dir"

theorem ofTable_stack_eq_ok_iff (hLayers : ∀ t ∈ layers, Distinct t) {settings : Settings} :
    ofTable (stack layers) = .ok settings ↔ Chosen layers settings := by
  have hIndent := flat_indentOf?.map_lookup_stack hLayers "indent"
  have hIncludes := flat_includesOf?.map_lookup_stack hLayers "includes"
  have hRuntime := flat_map_textOf?.map_lookup_stack hLayers "runtime_dir"
  unfold ofTable
  simp only [bind_eq_ok_iff, field_eq_ok_iff, gives_congr hIndent, gives_congr hIncludes,
    gives_congr hRuntime]
  constructor
  · rintro ⟨indent, h₁, includes, h₂, runtimeDir, h₃, hAll⟩
    cases hAll
    exact ⟨h₁, h₂, h₃⟩
  · rintro ⟨h₁, h₂, h₃⟩
    exact ⟨_, h₁, _, h₂, _, h₃, rfl⟩

theorem refused_of_ofTable_stack (hLayers : ∀ t ∈ layers, Distinct t) {fault : SettingsFault}
    (h : ofTable (stack layers) = .error fault) :
    ∃ key, fault = .badValue key ∧ Refused layers key := by
  have hIndent := flat_indentOf?.map_lookup_stack hLayers "indent"
  have hIncludes := flat_includesOf?.map_lookup_stack hLayers "includes"
  have hRuntime := flat_map_textOf?.map_lookup_stack hLayers "runtime_dir"
  unfold ofTable at h
  simp only [bind_eq_error_iff, field_eq_error_iff, unreadable_congr hIndent,
    unreadable_congr hIncludes, unreadable_congr hRuntime] at h
  rcases h with ⟨rfl, h⟩ | ⟨indent, -, ⟨rfl, h⟩ | ⟨includes, -, ⟨rfl, h⟩ | ⟨runtimeDir, -, h⟩⟩⟩
  · exact ⟨_, rfl, .indent h⟩
  · exact ⟨_, rfl, .includes h⟩
  · exact ⟨_, rfl, .runtimeDir h⟩
  · cases h

/-- Layers that say the same in the end about the keys with a meaning make the same settings. -/
theorem ofTable_stack_congr (hLayers : ∀ t ∈ layers, Distinct t)
    (hLayers' : ∀ t ∈ layers', Distinct t)
    (h : ∀ key ∈ keys, lastDefined layers key = lastDefined layers' key) :
    ofTable (stack layers) = ofTable (stack layers') := by
  have hField {α : Type} {read : Value → Option α} (hFlat : Flat read) {key : String}
      (hKey : key ∈ keys) (default : α) :
      field (stack layers) key default read = field (stack layers') key default read := by
    apply field_congr
    rw [hFlat.map_lookup_stack hLayers, hFlat.map_lookup_stack hLayers', h key hKey]
  unfold ofTable
  rw [hField flat_indentOf? (by decide), hField flat_includesOf? (by decide),
    hField flat_map_textOf? (by decide)]

end layers

end Simgen.Settings
