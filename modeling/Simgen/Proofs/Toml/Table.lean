import Simgen.Proofs.Keyed
import Simgen.Toml.Document
import Mathlib.Data.List.Nodup

/-! Tables of documents. No key stands twice in the table that a document is read as, and laying one
table over another changes the values under the keys of the upper one. -/
namespace Simgen.Toml

/-- The keys of a list of entries are distinct. -/
def Distinct {α : Type} (entries : List (String × α)) : Prop := (entries.map Prod.fst).Nodup

theorem Distinct.put {α : Type} {entries : List (String × α)} (h : Distinct entries) (key : String)
    (a : α) :
    Distinct (if (entries.lookup key).isSome then
        entries.map fun e => if e.1 = key then (key, a) else e
      else entries ++ [(key, a)]) := by
  rcases keys_put entries key a with hKeys | ⟨hNew, hKeys⟩
  · rwa [Distinct, hKeys]
  · rw [Distinct, hKeys]
    exact h.append (List.nodup_singleton _) (by simpa using hNew)

theorem Distinct.snoc {α : Type} {entries : List (String × α)} (h : Distinct entries) {key : String}
    (a : α) (hKey : entries.lookup key = none) : Distinct (entries ++ [(key, a)]) := by
  have hPut := h.put key a
  rwa [hKey, Option.isSome_none, if_neg Bool.false_ne_true] at hPut

section reading

variable {es es' : Entries}

/-- A change somewhere in a tree of tables keeps the keys of the outermost one distinct, if it does
so where it is made. -/
theorem Distinct.changeAt {byDots dotted : Bool} {change : Bool → Entries → Option Entries}
    (hChange : ∀ dotted es es', Distinct es → change dotted es = some es' → Distinct es')
    {path : List String} (h : Distinct es)
    (hMade : es.changeAt byDots change dotted path = some es') : Distinct es' := by
  cases path with
  | nil => exact hChange dotted es es' h hMade
  | cons key path =>
      rw [Entries.changeAt] at hMade
      split at hMade
      · obtain ⟨inner, -, hPut⟩ := Option.bind_eq_some_iff.mp hMade
        cases hPut
        exact h.put key _
      · cases hMade
      · split at hMade
        · cases hMade
        · obtain ⟨inner, -, hPut⟩ := Option.bind_eq_some_iff.mp hMade
          cases hPut
          exact h.put key _
      · cases hMade
      · obtain ⟨latest, -, hPut⟩ := Option.bind_eq_some_iff.mp hMade
        cases hPut
        exact h.put key _

theorem Distinct.addValue {path : List String} {key : String} {v : Value} (h : Distinct es)
    (hMade : es.addValue path key v = some es') : Distinct es' := by
  refine h.changeAt (fun dotted es es' h hMade => ?_) hMade
  split at hMade
  · cases hMade
  next hNew =>
    cases hMade
    rw [Bool.or_eq_true, not_or, Option.not_isSome_iff_eq_none] at hNew
    exact h.snoc _ hNew.2

theorem Distinct.openTable {path : List String} {key : String} (h : Distinct es)
    (hMade : es.openTable path key = some es') : Distinct es' := by
  refine h.changeAt (fun _ es es' h hMade => ?_) hMade
  split at hMade
  next hNew =>
    cases hMade
    exact h.snoc _ hNew
  · cases hMade
    exact h.put key _
  · cases hMade

theorem Distinct.openItem {path : List String} {key : String} (h : Distinct es)
    (hMade : es.openItem path key = some es') : Distinct es' := by
  refine h.changeAt (fun _ es es' h hMade => ?_) hMade
  split at hMade
  next hNew =>
    cases hMade
    exact h.snoc _ hNew
  · cases hMade
    exact h.put key _
  · cases hMade

theorem Distinct.header {r r' : Reading} {cs rest : List Char} (h : Distinct r.root)
    (hRead : header? r cs = some (r', rest)) : Distinct r'.root := by
  unfold header? at hRead
  split at hRead
  next isItem behind _ =>
    obtain ⟨⟨path, key, behindKey⟩, -, hRead⟩ := Option.bind_eq_some_iff.mp hRead
    obtain ⟨behindMark, -, hRead⟩ := Option.bind_eq_some_iff.mp hRead
    cases isItem with
    | true =>
        simp only [if_true] at hRead
        obtain ⟨behindMarks, -, hRead⟩ := Option.bind_eq_some_iff.mp hRead
        obtain ⟨root, hOpen, hRead⟩ := Option.bind_eq_some_iff.mp hRead
        cases hRead
        exact h.openItem hOpen
    | false =>
        simp only [Bool.false_eq_true, if_false] at hRead
        obtain ⟨behindMarks, -, hRead⟩ := Option.bind_eq_some_iff.mp hRead
        obtain ⟨root, hOpen, hRead⟩ := Option.bind_eq_some_iff.mp hRead
        cases hRead
        exact h.openTable hOpen

theorem Distinct.pair {r r' : Reading} {cs rest : List Char} (h : Distinct r.root)
    (hRead : pair? r cs = some (r', rest)) : Distinct r'.root := by
  unfold pair? at hRead
  obtain ⟨⟨path, key, behindKey⟩, -, hRead⟩ := Option.bind_eq_some_iff.mp hRead
  obtain ⟨behindMark, -, hRead⟩ := Option.bind_eq_some_iff.mp hRead
  obtain ⟨⟨v, behindValue⟩, -, hRead⟩ := Option.bind_eq_some_iff.mp hRead
  obtain ⟨root, hAdd, hRead⟩ := Option.bind_eq_some_iff.mp hRead
  cases hRead
  exact h.changeAt (fun _ _ _ h hAdd => h.addValue hAdd) hAdd

/-- Each line of a document keeps the keys distinct. -/
theorem Distinct.expressions {fuel : Nat} {r r' : Reading} {cs : List Char} (h : Distinct r.root)
    (hRead : expressions? fuel r cs = some r') : Distinct r'.root := by
  induction fuel generalizing r cs with
  | zero => cases hRead
  | succ fuel ih =>
      rw [expressions?] at hRead
      obtain ⟨line, -, hRead⟩ := Option.bind_eq_some_iff.mp hRead
      split at hRead
      · cases hRead
        exact h
      · obtain ⟨⟨next, behind⟩, hHeader, hRead⟩ := Option.bind_eq_some_iff.mp hRead
        obtain ⟨more, -, hRead⟩ := Option.bind_eq_some_iff.mp hRead
        exact ih (h.header hHeader) hRead
      · obtain ⟨⟨next, behind⟩, hPair, hRead⟩ := Option.bind_eq_some_iff.mp hRead
        obtain ⟨more, -, hRead⟩ := Option.bind_eq_some_iff.mp hRead
        exact ih (h.pair hPair) hRead

end reading

theorem map_fst_entriesToTable (es : Entries) :
    (entriesToTable es).map Prod.fst = es.map Prod.fst := by
  induction es with
  | nil => rfl
  | cons e es ih =>
      obtain ⟨key, n⟩ := e
      rw [entriesToTable, List.map_cons, List.map_cons, ih]

theorem distinct_of_parse? {document : String} {t : Table} (h : parse? document = some t) :
    Distinct t := by
  unfold parse? at h
  obtain ⟨r, hRead, h⟩ := Option.bind_eq_some_iff.mp h
  cases h
  have hEmpty : Distinct (Reading.mk [] []).root := List.nodup_nil
  rw [Distinct, map_fst_entriesToTable]
  exact hEmpty.expressions hRead

section laying

variable {upper : Table} {key : String}

theorem Table.lookup_put (t : Table) (key other : String) (v : Value) :
    (t.put key v).lookup other = if other = key then some v else t.lookup other :=
  Simgen.lookup_put t key other v

/-- What the upper table does not have stays. -/
theorem Table.lookup_over_of_none (h : upper.lookup key = none) (lower : Table) :
    (upper.over lower).lookup key = lower.lookup key := by
  unfold Table.over
  induction upper generalizing lower with
  | nil => rw [overTable]
  | cons e upper ih =>
      obtain ⟨first, v⟩ := e
      rw [lookup_eq_none_iff_notMem, List.map_cons, List.mem_cons, not_or,
        ← lookup_eq_none_iff_notMem] at h
      rw [overTable, ih h.2, Table.lookup_put, if_neg h.1]

/-- What the upper table has is laid over what the lower one has. -/
theorem Table.lookup_over_of_some (hKeys : Distinct upper) {v : Value}
    (h : upper.lookup key = some v) (lower : Table) :
    (upper.over lower).lookup key = some ((lower.lookup key).elim v v.over) := by
  induction upper generalizing lower with
  | nil => cases h
  | cons e upper ih =>
      obtain ⟨first, w⟩ := e
      obtain ⟨hFirst, hRest⟩ := List.nodup_cons.mp hKeys
      rw [Table.over, overTable, ← Table.over]
      by_cases hOther : key = first
      · subst hOther
        obtain rfl : w = v := by simpa using h
        rw [Table.lookup_over_of_none (lookup_eq_none_iff_notMem.mpr hFirst), Table.lookup_put,
          if_pos rfl]
        cases lower.lookup key with
        | none => rfl
        | some old => rfl
      · have hBeq : (key == first) = false := by simpa using hOther
        rw [List.lookup_cons, hBeq] at h
        rw [ih hRest h, Table.lookup_put, if_neg hOther]

end laying

end Simgen.Toml
