import Rowtime.Log.Operation
import Rowtime.Proofs.Results
import Rowtime.Proofs.Tables

/-!
# What holds of every database

A catalog is `Valid` when each of its tables is, and stands under its own name.
The operations of a log keep this as long as the tables that they create are new
ones. An operation that does not drop a table leaves it there, with more rows at
most.
-/
namespace Rowtime

namespace Catalog

/-- Every table is valid and stands under its own name. -/
structure Valid (db : Catalog) : Prop where
  keyed : ∀ e ∈ db.entries, e.1 = key e.2.name
  tables : ∀ e ∈ db.entries, e.2.Valid

theorem empty_valid : empty.Valid := ⟨by simp [empty], by simp [empty]⟩

theorem mem_of_get? {db : Catalog} {name : String} {t : Table} (h : db.get? name = some t) :
    (key name, t) ∈ db.entries := by
  obtain ⟨e, he, rfl⟩ := Option.map_eq_some_iff.mp h
  have hk := List.find?_some he
  rw [beq_iff_eq] at hk
  rw [← hk]
  exact List.mem_of_find?_eq_some he

theorem Valid.get? {db : Catalog} (h : db.Valid) {name : String} {t : Table}
    (ht : db.get? name = some t) : t.Valid ∧ key t.name = key name := by
  have hm := mem_of_get? ht
  exact ⟨h.tables _ hm, (h.keyed _ hm).symm⟩

theorem get?_congr {name name' : String} (h : key name = key name') (db : Catalog) :
    db.get? name = db.get? name' := by
  unfold Catalog.get?
  rw [h]

theorem find?_insertEntry (k k' : String) (t : Table) (es : List (String × Table)) :
    ((insertEntry k t es).find? fun e => e.1 == k').map (·.2) =
      if k = k' then some t else (es.find? fun e => e.1 == k').map (·.2) := by
  induction es with
  | nil => by_cases h : k = k' <;> simp [insertEntry, h]
  | cons e r ih =>
      obtain ⟨k₁, t₁⟩ := e
      unfold insertEntry
      split
      · by_cases h : k = k' <;> simp [h]
      · split
        · rename_i he
          rw [beq_iff_eq] at he
          subst he
          by_cases h : k = k' <;> simp [h]
        · rename_i hne
          rw [List.find?_cons]
          by_cases h₁ : k₁ = k'
          · subst h₁
            have : k ≠ k₁ := by simpa using hne
            simp [this]
          · simp only [beq_eq_false_iff_ne.mpr h₁]
            rw [ih]
            simp [h₁]

theorem get?_set (db : Catalog) (name : String) (t : Table) (name' : String) :
    (db.set name t).get? name' = if key name = key name' then some t else db.get? name' :=
  find?_insertEntry (key name) (key name') t db.entries

theorem mem_insertEntry {k : String} {t : Table} {es : List (String × Table)}
    {e : String × Table} (h : e ∈ insertEntry k t es) : e = (k, t) ∨ e ∈ es := by
  induction es with
  | nil => simpa [insertEntry] using h
  | cons e' r ih =>
      obtain ⟨k', t'⟩ := e'
      unfold insertEntry at h
      split at h
      · simpa using h
      · split at h
        · rcases List.mem_cons.mp h with h | h
          · exact Or.inl h
          · exact Or.inr (by simp [h])
        · rcases List.mem_cons.mp h with h | h
          · exact Or.inr (by simp [h])
          · rcases ih h with h | h
            · exact Or.inl h
            · exact Or.inr (by simp [h])

theorem Valid.set {db : Catalog} (h : db.Valid) {name : String} {t : Table} (ht : t.Valid)
    (hk : key name = key t.name) : (db.set name t).Valid := by
  constructor
  · intro e he
    rcases mem_insertEntry he with rfl | he
    · exact hk
    · exact h.keyed e he
  · intro e he
    rcases mem_insertEntry he with rfl | he
    · exact ht
    · exact h.tables e he

/-- What creating a table does. -/
theorem create_spec {db db' : Catalog} {t : Table} (h : db.create t = .ok db') :
    db.get? t.name = none ∧ db' = db.set t.name t := by
  unfold create at h
  split at h
  · simp at h
  · rename_i hn
    rw [Except.ok.injEq] at h
    exact ⟨hn, h.symm⟩

/-- What dropping a table does. -/
theorem drop_spec {db db' : Catalog} {name : String} (h : db.drop name = .ok db') :
    db' = ⟨db.entries.filter fun e => !(e.1 == key name)⟩ := by
  unfold drop at h
  split at h
  · simp at h
  · rw [Except.ok.injEq] at h
    exact h.symm

theorem get?_filter (db : Catalog) (k name : String) :
    (⟨db.entries.filter fun e => !(e.1 == k)⟩ : Catalog).get? name =
      if k = key name then none else db.get? name := by
  unfold get?
  rw [List.find?_filter]
  by_cases h : k = key name
  · rw [if_pos h, Option.map_eq_none_iff, List.find?_eq_none]
    intro e _
    rw [← h]
    cases e.1 == k <;> simp
  · rw [if_neg h]
    congr 2
    funext e
    by_cases he : e.1 = key name
    · have hne : ¬e.1 = k := fun hk => h (hk.symm.trans he)
      simp [he, Ne.symm h]
    · simp [he]

/-- What was in a table of the one catalog is still there in the other. -/
def GrowsAt (db db' : Catalog) (name : String) : Prop :=
  ∀ t, db.get? name = some t → ∃ t', db'.get? name = some t' ∧ t.Grows t'

theorem GrowsAt.refl (db : Catalog) (name : String) : db.GrowsAt db name :=
  fun t ht => ⟨t, ht, .refl t⟩

theorem GrowsAt.trans {db db' db'' : Catalog} {name : String} (h : db.GrowsAt db' name)
    (k : db'.GrowsAt db'' name) : db.GrowsAt db'' name := by
  intro t ht
  obtain ⟨t', ht', hg⟩ := h t ht
  obtain ⟨t'', ht'', hg'⟩ := k t' ht'
  exact ⟨t'', ht'', hg.trans hg'⟩

end Catalog

namespace Log

open Catalog

/-- A table that an operation creates is a new one, under its own name. -/
def Operation.Sound : Operation → Prop
  | .create name t => t.name = name ∧ t.Valid
  | .drop _ => True
  | .insert .. => True

/-- Whether an operation may remove the table with a key. -/
def Operation.Drops (k : String) : Operation → Prop
  | .drop name => key name = k
  | _ => False

/-- What an operation does to the tables. -/
theorem applyOrSkip_cases (db : Catalog) (op : Operation) :
    op.applyOrSkip db = db ∨
      (∃ name t, op = .create name t ∧ db.get? t.name = none ∧
        op.applyOrSkip db = db.set t.name t) ∨
      (∃ name, op = .drop name ∧
        op.applyOrSkip db = ⟨db.entries.filter fun e => !(e.1 == key name)⟩) ∨
      ∃ name row t t', op = .insert name row ∧ db.get? name = some t ∧ t.insert row = .ok t' ∧
        op.applyOrSkip db = db.set name t' := by
  cases op with
  | create name t =>
      simp only [Operation.applyOrSkip, Operation.apply]
      cases hn : db.get? name with
      | some _ => exact Or.inl rfl
      | none =>
          cases hc : db.create t with
          | error e => exact Or.inl rfl
          | ok db' =>
              obtain ⟨ht, rfl⟩ := create_spec hc
              exact Or.inr (Or.inl ⟨name, t, rfl, ht, rfl⟩)
  | drop name =>
      simp only [Operation.applyOrSkip, Operation.apply]
      cases hd : db.drop name with
      | error e => exact Or.inl rfl
      | ok db' => exact Or.inr (Or.inr (Or.inl ⟨name, rfl, drop_spec hd⟩))
  | insert name row =>
      simp only [Operation.applyOrSkip, Operation.apply]
      cases hn : db.get? name with
      | none => exact Or.inl rfl
      | some t =>
          cases hi : t.insert row with
          | error e => simp [hi]
          | ok t' =>
              refine Or.inr (Or.inr (Or.inr ⟨name, row, t, t', rfl, hn, hi, ?_⟩))
              simp [hi]

theorem applyOrSkip_valid {db : Catalog} (h : db.Valid) {op : Operation}
    (ho : ∀ name t, op = .create name t → t.Valid) :
    (op.applyOrSkip db).Valid := by
  rcases applyOrSkip_cases db op with he | ⟨name, t, rfl, -, he⟩ | ⟨name, rfl, he⟩ |
    ⟨name, row, t, t', rfl, ht, hi, he⟩ <;> rw [he]
  · exact h
  · exact h.set (ho name t rfl) rfl
  · exact ⟨fun e he => h.keyed e (List.mem_filter.mp he).1,
      fun e he => h.tables e (List.mem_filter.mp he).1⟩
  · obtain ⟨hv, hk⟩ := h.get? ht
    have hname := (Table.Extends.cons hi (.refl t')).name
    exact h.set (Table.insert_valid hv hi) (by rw [hname, hk])

/-- An operation that does not drop a table leaves it, or adds a row. -/
theorem applyOrSkip_get? {db : Catalog} {op : Operation} {name : String} {t : Table}
    (hd : ¬op.Drops (key name)) (ht : db.get? name = some t) :
    (op.applyOrSkip db).get? name = some t ∨
      ∃ row t', t.insert row = .ok t' ∧ (op.applyOrSkip db).get? name = some t' := by
  rcases applyOrSkip_cases db op with he | ⟨n, u, rfl, hn, he⟩ | ⟨n, rfl, he⟩ |
    ⟨n, row, u, u', rfl, hu, hi, he⟩ <;> rw [he]
  · exact Or.inl ht
  · rw [get?_set]
    split
    · rename_i hk
      rw [get?_congr hk, ht] at hn
      simp at hn
    · exact Or.inl ht
  · rw [get?_filter]
    split
    · rename_i hk
      exact absurd hk hd
    · exact Or.inl ht
  · rw [get?_set]
    split
    · rename_i hk
      rw [get?_congr hk, ht, Option.some.injEq] at hu
      exact Or.inr ⟨row, u', hu ▸ hi, rfl⟩
    · exact Or.inl ht

theorem replay_cons (db : Catalog) (op : Operation) (ops : List Operation) :
    replay db (op :: ops) = replay (op.applyOrSkip db) ops := rfl

theorem replay_append (db : Catalog) (ops ops' : List Operation) :
    replay db (ops ++ ops') = replay (replay db ops) ops' := by
  unfold replay
  rw [List.foldl_append]

theorem replay_valid {db : Catalog} (h : db.Valid) {ops : List Operation}
    (ho : ∀ name t, .create name t ∈ ops → t.Valid) : (replay db ops).Valid := by
  induction ops generalizing db with
  | nil => exact h
  | cons op ops ih =>
      rw [replay_cons]
      apply ih (applyOrSkip_valid h fun name t he => ho name t (by simp [he]))
      intro name t hm
      exact ho name t (by simp [hm])

/-- Rows are added to a table while it is not dropped. -/
theorem replay_extends {ops : List Operation} {name : String}
    (hd : ∀ op ∈ ops, ¬op.Drops (key name)) {db : Catalog} {t : Table}
    (ht : db.get? name = some t) :
    ∃ t' added, (replay db ops).get? name = some t' ∧ t.Extends added t' := by
  induction ops generalizing db t with
  | nil => exact ⟨t, [], ht, .refl t⟩
  | cons op ops ih =>
      rw [replay_cons]
      have hrest : ∀ o ∈ ops, ¬o.Drops (key name) := fun o hm => hd o (by simp [hm])
      rcases applyOrSkip_get? (hd op (by simp)) ht with hsame | ⟨row, t₁, hi, hnext⟩
      · exact ih hrest hsame
      · obtain ⟨t', added, ht', hext⟩ := ih hrest hnext
        exact ⟨t', row :: added, ht', hext.cons hi⟩

/-- A table grows while it is not dropped. -/
theorem replay_grows {db : Catalog} {ops : List Operation} {name : String}
    (hd : ∀ op ∈ ops, ¬op.Drops (key name)) : db.GrowsAt (replay db ops) name := by
  intro t ht
  obtain ⟨t', added, ht', hext⟩ := replay_extends hd ht
  exact ⟨t', ht', hext.grows⟩

end Log

end Rowtime
