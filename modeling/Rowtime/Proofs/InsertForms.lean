import Mathlib.Data.List.InsertIdx
import Mathlib.Data.List.Nodup
import Mathlib.Data.Set.List
import Rowtime.Proofs.Evaluation
import Rowtime.Proofs.Written

/-!
# The forms of an INSERT

An INSERT may name columns in any order, name none, or leave columns out. Forms that mean the
same do the same:

* The columns and the values of each tuple may be rearranged together.
* Without names all columns are meant in their order, and a tuple that is one value short has NULL
  for the row time. So tuples that are all short go with the other columns.
* A column that is left out has its default, or NULL without one, and the row time has NULL.

What is proved of a tuple is that its row comes out the same on every state of the table, so that
the rows behind it, which see the table grow, come out the same as well.
-/
namespace Rowtime

open Text Log Sql

/-! ## Rearranged lists -/

section Lists

variable {α β : Type}

/-- The elements at the given positions, in the order of these, and then those behind. -/
def rearranged (order : List Nat) (xs : List α) : List α :=
  order.filterMap (fun i => xs[i]?) ++ xs.drop order.length

theorem rearranged_map (f : α → β) (order : List Nat) (xs : List α) :
    rearranged order (xs.map f) = (rearranged order xs).map f := by
  have hget : (fun i => (xs.map f)[i]?) = fun i => xs[i]?.map f := funext fun i => List.getElem?_map
  rw [rearranged, rearranged, List.map_append, List.map_drop, hget, List.map_filterMap]

theorem filterMap_range_getElem? (n : Nat) (xs : List α) :
    (List.range n).filterMap (fun i => xs[i]?) = xs.take n := by
  induction n with
  | zero => rfl
  | succ n ih =>
      rw [List.range_succ, List.filterMap_append, ih, List.take_add_one]
      cases hx : xs[n]? <;> simp [hx]

/-- Nothing is lost when all positions up to some point are given. -/
theorem rearranged_perm {order : List Nat} {n : Nat} (h : order.Perm (List.range n)) (xs : List α) :
    (rearranged order xs).Perm xs := by
  have hlength : order.length = n := by rw [h.length_eq, List.length_range]
  have hfront := h.filterMap (fun i => xs[i]?)
  rw [filterMap_range_getElem?] at hfront
  have hall := hfront.append_right (xs.drop n)
  rwa [List.take_append_drop, ← hlength] at hall

theorem zip_rearranged {order : List Nat} {xs : List α} {ys : List β} (h : xs.length = ys.length) :
    (rearranged order xs).zip (rearranged order ys) = rearranged order (xs.zip ys) := by
  have hx : rearranged order xs = (rearranged order (xs.zip ys)).map Prod.fst := by
    rw [← rearranged_map, List.map_fst_zip h.le]
  have hy : rearranged order ys = (rearranged order (xs.zip ys)).map Prod.snd := by
    rw [← rearranged_map, List.map_snd_zip h.ge]
  rw [hx, hy, ← List.unzip_fst, ← List.unzip_snd, List.zip_unzip]

theorem zip_insertIdx {xs : List α} {ys : List β} (h : xs.length = ys.length) (k : Nat) (x : α)
    (y : β) : (xs.insertIdx k x).zip (ys.insertIdx k y) = (xs.zip ys).insertIdx k (x, y) := by
  induction k generalizing xs ys with
  | zero => rfl
  | succ k ih =>
      cases xs with
      | nil =>
          rw [List.eq_nil_of_length_eq_zero h.symm]
          rfl
      | cons a xs =>
          cases ys with
          | nil => cases h
          | cons b ys =>
              rw [List.insertIdx_succ_cons, List.insertIdx_succ_cons, List.zip_cons_cons,
                List.zip_cons_cons, List.insertIdx_succ_cons, ih (Nat.succ.inj h)]

/-- Without the element at one position, when that is the only one that fails a test. -/
theorem filter_eq_eraseIdx {p : α → Bool} {xs : List α} {r : Nat}
    (h : ∀ j a, xs[j]? = some a → (p a = true ↔ j ≠ r)) : xs.filter p = xs.eraseIdx r := by
  induction xs generalizing r with
  | nil => rfl
  | cons a xs ih =>
      cases r with
      | zero =>
          have ha : ¬p a = true := fun hp => (h 0 a rfl).mp hp rfl
          have hxs : ∀ b ∈ xs, p b = true := by
            intro b hb
            obtain ⟨j, hj⟩ := List.getElem?_of_mem hb
            exact (h (j + 1) b hj).mpr (Nat.succ_ne_zero j)
          rw [List.filter_cons_of_neg ha, List.filter_eq_self.mpr hxs]
          rfl
      | succ r =>
          have ha : p a = true := (h 0 a rfl).mpr (Nat.succ_ne_zero r).symm
          have hxs : ∀ j b, xs[j]? = some b → (p b = true ↔ j ≠ r) := fun j b hb =>
            (h (j + 1) b hb).trans Nat.succ_ne_succ_iff
          rw [List.filter_cons_of_pos ha, ih hxs]
          rfl

end Lists

namespace Table

variable {t : Table} {now : Int64}

/-! ## Named columns -/

theorem positionsOf_cons (seen : List Nat) (name : String) (names : List String) :
    t.positionsOf seen (name :: names) =
      match t.columnIndex? name with
      | none => .error (.columnNotFound name)
      | some i =>
        if i ∈ seen then .error (.badSyntax (.repeatedColumn name))
        else (t.positionsOf (i :: seen) names).map (i :: ·) := by
  rw [positionsOf]
  cases t.columnIndex? name with
  | none => rfl
  | some i => simp only [List.contains_iff_mem]

/-- The columns of the names are there, and none of them is meant twice or was meant before. -/
theorem positionsOf_eq_ok_iff {seen is : List Nat} {names : List String} :
    t.positionsOf seen names = .ok is ↔
      names.map t.columnIndex? = is.map some ∧ is.Nodup ∧ ∀ i ∈ is, i ∉ seen := by
  induction names generalizing seen is with
  | nil =>
      rw [positionsOf, Except.ok.injEq]
      constructor
      · rintro rfl
        exact ⟨rfl, .nil, by simp⟩
      · rintro ⟨h, -⟩
        exact (List.map_eq_nil_iff.mp h.symm).symm
  | cons name names ih =>
      rw [positionsOf_cons]
      constructor
      · intro h
        cases hi : t.columnIndex? name with
        | none =>
            rw [hi] at h
            cases h
        | some i =>
            simp only [hi] at h
            split at h
            · cases h
            · rename_i hseen
              obtain ⟨rest, hrest, rfl⟩ := map_eq_ok.mp h
              obtain ⟨hnames, hnodup, hnew⟩ := ih.mp hrest
              have hi' : i ∉ rest := fun hm => hnew i hm List.mem_cons_self
              refine ⟨by rw [List.map_cons, List.map_cons, hi, hnames],
                List.nodup_cons.mpr ⟨hi', hnodup⟩, ?_⟩
              rw [List.forall_mem_cons]
              exact ⟨hseen, fun j hj hs => hnew j hj (List.mem_cons_of_mem i hs)⟩
      · rintro ⟨hnames, hnodup, hnew⟩
        cases is with
        | nil => cases hnames
        | cons i is =>
            obtain ⟨hi, hrest⟩ := List.cons.inj hnames
            rw [List.nodup_cons] at hnodup
            rw [List.forall_mem_cons] at hnew
            have hok : t.positionsOf (i :: seen) names = .ok is := by
              refine ih.mpr ⟨hrest, hnodup.2, fun j hj => ?_⟩
              rw [List.mem_cons, not_or]
              exact ⟨fun he => hnodup.1 (he ▸ hj), hnew.2 j hj⟩
            simp only [hi, if_neg hnew.1, hok]
            rfl

theorem length_positionsOf {seen is : List Nat} {names : List String}
    (h : t.positionsOf seen names = .ok is) : names.length = is.length := by
  rw [← List.length_map t.columnIndex?, (positionsOf_eq_ok_iff.mp h).1, List.length_map]

/-- Names have positions when each is that of a column and no two are of one column. -/
theorem succeeds_positionsOf_iff {names : List String} : Succeeds (t.positionsOf [] names) ↔
    (∀ o ∈ names.map t.columnIndex?, o.isSome = true) ∧ (names.map t.columnIndex?).Nodup := by
  constructor
  · rintro ⟨is, his⟩
    obtain ⟨hnames, hnodup, -⟩ := positionsOf_eq_ok_iff.mp his
    rw [hnames]
    refine ⟨fun o ho => ?_, hnodup.map fun _ _ => Option.some.inj⟩
    obtain ⟨i, -, rfl⟩ := List.mem_map.mp ho
    rfl
  · rintro ⟨hsome, hnodup⟩
    obtain ⟨is, his⟩ : names.map t.columnIndex? ∈ Set.range (List.map some) := by
      rw [Set.range_list_map]
      exact fun o ho => ⟨o.get (hsome o ho), Option.some_get (hsome o ho)⟩
    rw [← his] at hnodup
    exact ⟨is, positionsOf_eq_ok_iff.mpr ⟨his.symm, hnodup.of_map some, by simp⟩⟩

/-- Rearranged names have rearranged positions. -/
theorem positionsOf_rearranged {names : List String} {is : List Nat} (order : List Nat)
    (ho : order.Perm (List.range names.length)) (h : t.positionsOf [] names = .ok is) :
    t.positionsOf [] (rearranged order names) = .ok (rearranged order is) := by
  obtain ⟨hnames, hnodup, -⟩ := positionsOf_eq_ok_iff.mp h
  refine positionsOf_eq_ok_iff.mpr ⟨?_, (rearranged_perm ho is).nodup_iff.mpr hnodup, by simp⟩
  rw [← rearranged_map, ← rearranged_map, hnames]

theorem succeeds_positionsOf_rearranged {names : List String} {order : List Nat}
    (ho : order.Perm (List.range names.length)) :
    Succeeds (t.positionsOf [] (rearranged order names)) ↔ Succeeds (t.positionsOf [] names) := by
  have hperm := (rearranged_perm ho names).map t.columnIndex?
  rw [succeeds_positionsOf_iff, succeeds_positionsOf_iff, hperm.nodup_iff]
  simp only [hperm.mem_iff]

/-- That a column was meant before does not matter to names of others. -/
theorem positionsOf_cons_seen {i : Nat} {names : List String}
    (h : ∀ n ∈ names, t.columnIndex? n ≠ some i) {seen seen' : List Nat}
    (hseen : ∀ j, j ≠ i → (j ∈ seen' ↔ j ∈ seen)) :
    t.positionsOf seen' names = t.positionsOf seen names := by
  induction names generalizing seen seen' with
  | nil => rfl
  | cons name names ih =>
      rw [List.forall_mem_cons] at h
      rw [positionsOf_cons, positionsOf_cons]
      cases hj : t.columnIndex? name with
      | none => rfl
      | some j =>
          have hne : j ≠ i := fun he => h.1 (he ▸ hj)
          have hrest : t.positionsOf (j :: seen') names = t.positionsOf (j :: seen) names := by
            refine ih h.2 fun k hk => ?_
            rw [List.mem_cons, List.mem_cons, hseen k hk]
          simp only [hseen j hne, hrest]

/-- One more name among the others. -/
theorem positionsOf_insertIdx {x : String} {i : Nat} (hx : t.columnIndex? x = some i)
    {names : List String} (h : ∀ n ∈ names, t.columnIndex? n ≠ some i) {k : Nat}
    (hk : k ≤ names.length) {seen : List Nat} (hseen : i ∉ seen) :
    t.positionsOf seen (names.insertIdx k x) =
      (t.positionsOf seen names).map (·.insertIdx k i) := by
  induction k generalizing names seen with
  | zero =>
      have hrest : t.positionsOf (i :: seen) names = t.positionsOf seen names :=
        positionsOf_cons_seen h fun j hj => by rw [List.mem_cons, or_iff_right hj]
      rw [List.insertIdx_zero, positionsOf_cons]
      simp only [hx, if_neg hseen, hrest]
      rfl
  | succ k ih =>
      cases names with
      | nil => cases hk
      | cons name names =>
          -- A fault at a name before the new one is the same fault in both lists.
          rw [List.forall_mem_cons] at h
          rw [List.insertIdx_succ_cons, positionsOf_cons, positionsOf_cons]
          cases hj : t.columnIndex? name with
          | none => rfl
          | some j =>
              have hne : i ≠ j := fun he => h.1 (he ▸ hj)
              simp only
              split
              · rfl
              · rw [ih h.2 (Nat.le_of_succ_le_succ hk) (by simp [hne, hseen])]
                cases t.positionsOf (j :: seen) names <;> rfl

/-! ## Values for columns -/

/-- With different positions a value is looked up where it stands. -/
theorem given?_eq_some_iff {is : List Nat} (h : is.Nodup) {values : Row} {i : Nat} {v : Value} :
    given? is values i = some v ↔ (i, v) ∈ is.zip values := by
  induction is generalizing values with
  | nil => simp [given?]
  | cons j is ih =>
      rw [List.nodup_cons] at h
      cases values with
      | nil => simp [given?]
      | cons w values =>
          have hcons : given? (j :: is) (w :: values) i =
              if j = i then some w else given? is values i := by
            unfold given?
            rw [List.zip_cons_cons, List.find?_cons]
            by_cases hji : j = i <;> simp [hji]
          rw [hcons, List.zip_cons_cons, List.mem_cons, ← ih h.2, Prod.mk.injEq]
          split
          · rename_i hji
            subst hji
            have hout : given? is values j ≠ some v := fun hv =>
              h.1 (List.of_mem_zip ((ih h.2).mp hv)).1
            rw [Option.some.injEq, or_iff_left hout, and_iff_right rfl]
            exact eq_comm
          · rename_i hji
            rw [or_iff_right fun hp => hji hp.1.symm]

theorem given?_perm {is is' : List Nat} {values values' : Row} (h : is.Nodup) (h' : is'.Nodup)
    (hp : (is'.zip values').Perm (is.zip values)) (i : Nat) :
    given? is' values' i = given? is values i := by
  ext v
  rw [given?_eq_some_iff h, given?_eq_some_iff h', hp.mem_iff]

theorem fillFrom_congr {given given' : Nat → Option Value} {i : Nat} {cs : List Column}
    (h : ∀ j c, cs[j]? = some c →
      t.valueFor now (i + j) c (given' (i + j)) = t.valueFor now (i + j) c (given (i + j))) :
    t.fillFrom now given' i cs = t.fillFrom now given i cs := by
  induction cs generalizing i with
  | nil => rfl
  | cons c cs ih =>
      have hrest : t.fillFrom now given' (i + 1) cs = t.fillFrom now given (i + 1) cs := by
        refine ih fun j d hd => ?_
        rw [Nat.add_assoc, Nat.add_comm 1 j]
        exact h (j + 1) d hd
      rw [fillFrom, fillFrom, hrest]
      rw [show t.valueFor now i c (given' i) = t.valueFor now i c (given i) from h 0 c rfl]

/-! ## Rows -/

theorem fill_named (is : List Nat) (values : Row) : t.fill now (some is) values =
    if values.length ≠ is.length then .error (.columnCount is.length values.length)
    else t.fillFrom now (given? is values) 0 t.columns := rfl

theorem length_rearranged {α : Type} {order : List Nat} {n : Nat} (h : order.Perm (List.range n))
    (xs : List α) : (rearranged order xs).length = xs.length := (rearranged_perm h xs).length_eq

theorem fill_rearranged {order is : List Nat} (h : order.Perm (List.range is.length))
    (hnodup : is.Nodup) (values : Row) :
    t.fill now (some (rearranged order is)) (rearranged order values) =
      t.fill now (some is) values := by
  rw [fill_named, fill_named, length_rearranged h, length_rearranged h]
  by_cases hlength : values.length = is.length
  · have hgiven : given? (rearranged order is) (rearranged order values) = given? is values := by
      refine funext (given?_perm hnodup ((rearranged_perm h is).nodup_iff.mpr hnodup) ?_)
      rw [zip_rearranged hlength.symm]
      exact rearranged_perm h _
    rw [hgiven]
  · rw [if_pos hlength, if_pos hlength]

/-- What stands for a column that is left out. -/
def unstated (t : Table) (i : Nat) (c : Column) : Value :=
  if i = t.rowtimeIndex then .null else c.defaultValue.getD .null

theorem valueFor_unstated (i : Nat) (c : Column) :
    t.valueFor now i c (some (t.unstated i c)) = t.valueFor now i c none := by
  unfold valueFor unstated
  split <;> rfl

theorem given?_insertIdx {is : List Nat} (hnodup : is.Nodup) {i : Nat} (hi : i ∉ is) {k : Nat}
    (hk : k ≤ is.length) {values : Row} (hlength : values.length = is.length) (v : Value) (j : Nat) :
    given? (is.insertIdx k i) (values.insertIdx k v) j =
      if i = j then some v else given? is values j := by
  have hperm := List.perm_insertIdx i is hk
  have hnodup' : (i :: is).Nodup := List.nodup_cons.mpr ⟨hi, hnodup⟩
  have hzip : ((is.insertIdx k i).zip (values.insertIdx k v)).Perm ((i :: is).zip (v :: values)) := by
    rw [zip_insertIdx hlength.symm, List.zip_cons_cons]
    refine List.perm_insertIdx _ _ ?_
    rwa [List.length_zip, hlength, Nat.min_self]
  rw [given?_perm hnodup' (hperm.nodup_iff.mpr hnodup') hzip]
  unfold given?
  rw [List.zip_cons_cons, List.find?_cons]
  by_cases hij : i = j <;> simp [hij]

theorem fill_insertIdx {is : List Nat} (hnodup : is.Nodup) {i : Nat} (hi : i ∉ is) {c : Column}
    (hc : t.columns[i]? = some c) {k : Nat} (hk : k ≤ is.length) {values : Row}
    (hlength : values.length = is.length) :
    t.fill now (some (is.insertIdx k i)) (values.insertIdx k (t.unstated i c)) =
      t.fill now (some is) values := by
  have hk' : k ≤ values.length := hlength ▸ hk
  rw [fill_named, fill_named, List.length_insertIdx_of_le_length hk,
    List.length_insertIdx_of_le_length hk', hlength, if_neg (by simp), if_neg (by simp)]
  refine fillFrom_congr fun j d hd => ?_
  rw [Nat.zero_add, given?_insertIdx hnodup hi hk hlength]
  split
  · rename_i hij
    subst hij
    obtain rfl := Option.some.inj (hc.symm.trans hd)
    have hnone : given? is values i = none := by
      rw [Option.eq_none_iff_forall_ne_some]
      intro v hv
      exact hi (List.of_mem_zip ((given?_eq_some_iff hnodup).mp hv)).1
    rw [hnone, valueFor_unstated]
  · rfl

/-- A tuple of the wrong length stays one. -/
theorem fill_insertIdx_kind {is : List Nat} (hnodup : is.Nodup) {i : Nat} (hi : i ∉ is) {c : Column}
    (hc : t.columns[i]? = some c) {k : Nat} (hk : k ≤ is.length) (values : Row) :
    (t.fill now (some (is.insertIdx k i)) (values.insertIdx k (t.unstated i c))).mapError
        Fault.kind =
      (t.fill now (some is) values).mapError Fault.kind := by
  by_cases hlength : values.length = is.length
  · rw [fill_insertIdx hnodup hi hc hk hlength]
  · have hwrong : (values.insertIdx k (t.unstated i c)).length ≠ (is.insertIdx k i).length := by
      rw [List.length_insertIdx, List.length_insertIdx, if_pos hk]
      split <;> omega
    rw [fill_named, fill_named, if_pos hwrong, if_pos hlength]
    rfl

/-! ## Lists of tuples -/

theorem insert_grows {t' : Table} {row : Row} (h : t.insert row = .ok t') : t.Grows t' :=
  (Extends.cons h (.refl t')).grows

/-- When the rows of tuples come out alike on every state of the table, so do the rows of the
list. -/
theorem fillAll_map {ζ : Type} {view : Fault → ζ} {named named' : Option (List Nat)} {f : Row → Row}
    {tuples : List Row}
    (h : ∀ t', t.Grows t' → ∀ values ∈ tuples,
      (t'.fill now named' (f values)).mapError view = (t'.fill now named values).mapError view) :
    (t.fillAll now named' (tuples.map f)).mapError view =
      (t.fillAll now named tuples).mapError view := by
  induction tuples generalizing t with
  | nil => rfl
  | cons values tuples ih =>
      rw [List.map_cons, fillAll_cons, fillAll_cons]
      -- The same row is tried on the same table, and `h` holds of the table with it as well.
      refine mapError_bind view (h t (.refl t) values List.mem_cons_self) fun row => ?_
      cases hinsert : t.insert row with
      | error why => rfl
      | ok t₁ =>
          rw [ok_bind, ok_bind]
          refine mapError_map view (row :: ·) (ih fun t' ht' other hother => ?_)
          exact h t' ((insert_grows hinsert).trans ht') other (List.mem_cons_of_mem values hother)

/-- Columns and values may be rearranged together. -/
theorem prepare_rearranged {names : List String} {order : List Nat}
    (h : order.Perm (List.range names.length)) (tuples : List Row) :
    (t.prepare now (some (rearranged order names)) (tuples.map (rearranged order))).mapError
        (fun _ => ()) =
      (t.prepare now (some names) tuples).mapError fun _ => () := by
  rw [prepare, prepare]
  cases hpos : t.positionsOf [] names with
  | error why =>
      have hnone : ¬Succeeds (t.positionsOf [] (rearranged order names)) := by
        rw [succeeds_positionsOf_rearranged h]
        rintro ⟨is, his⟩
        rw [hpos] at his
        cases his
      cases hpos' : t.positionsOf [] (rearranged order names) with
      | error why' => rfl
      | ok is' => exact (hnone ⟨is', hpos'⟩).elim
  | ok is =>
      have hnodup := (positionsOf_eq_ok_iff.mp hpos).2.1
      have hlength := length_positionsOf hpos
      rw [hlength] at h
      rw [positionsOf_rearranged order (hlength ▸ h) hpos]
      exact fillAll_map fun t' _ values _ => congrArg _ (fill_rearranged h hnodup values)

/-- A column that is left out may be given with what stands for it. -/
theorem prepare_insertIdx {x : String} {i : Nat} {c : Column} (hx : t.columnIndex? x = some i)
    (hc : t.columns[i]? = some c) {names : List String}
    (h : ∀ n ∈ names, t.columnIndex? n ≠ some i) {k : Nat} (hk : k ≤ names.length)
    (tuples : List Row) :
    (t.prepare now (some (names.insertIdx k x))
        (tuples.map fun values => values.insertIdx k (t.unstated i c))).mapError Fault.kind =
      (t.prepare now (some names) tuples).mapError Fault.kind := by
  rw [prepare, prepare, positionsOf_insertIdx hx h hk List.not_mem_nil]
  cases hpos : t.positionsOf [] names with
  | error why => rfl
  | ok is =>
      obtain ⟨hnames, hnodup, -⟩ := positionsOf_eq_ok_iff.mp hpos
      have hlength := length_positionsOf hpos
      have hi : i ∉ is := by
        intro hi
        obtain ⟨n, hn, hni⟩ := List.mem_map.mp (hnames ▸ List.mem_map_of_mem hi)
        exact h n hn hni
      refine fillAll_map fun t' ht' values _ => ?_
      have hunstated : t'.unstated i c = t.unstated i c := by rw [unstated, unstated, ht'.index]
      rw [← hunstated]
      exact fill_insertIdx_kind hnodup hi (ht'.columns ▸ hc) (hlength ▸ hk) values

/-! ## Without names -/

/-- A tuple with a NULL for the row time when it is one value short. -/
def completed (t : Table) (values : Row) : Row :=
  if values.length + 1 = t.columns.length then values.insertIdx t.rowtimeIndex .null else values

/-- A column is found under every spelling of its name. -/
theorem Valid.columnIndex?_eq_some (h : t.Valid) {i : Nat} {c : Column} (hc : t.columns[i]? = some c)
    {x : String} (hx : sameName c.name x = true) : t.columnIndex? x = some i := by
  obtain ⟨hi, rfl⟩ := List.getElem?_eq_some_iff.mp hc
  refine List.findIdx?_eq_some_iff_getElem.mpr ⟨hi, hx, fun j hj hs => ?_⟩
  have hne := List.pairwise_iff_getElem.mp h.names j i (hj.trans hi) hi hj
  rw [sameName_trans hs (sameName_symm hx)] at hne
  cases hne

theorem sameName_of_columnIndex? {x : String} {i : Nat} (h : t.columnIndex? x = some i) :
    ∃ c, t.columns[i]? = some c ∧ sameName c.name x = true := by
  obtain ⟨hi, hx, -⟩ := List.findIdx?_eq_some_iff_getElem.mp h
  exact ⟨_, List.getElem?_eq_getElem hi, hx⟩

theorem nodup_allPositions : t.allPositions.Nodup := List.nodup_range

theorem Valid.columnIndex?_names (h : t.Valid) :
    (t.columns.map (·.name)).map t.columnIndex? = t.allPositions.map some := by
  refine List.ext_getElem? fun i => ?_
  rw [List.getElem?_map, List.getElem?_map, List.getElem?_map, allPositions]
  cases hc : t.columns[i]? with
  | none =>
      rw [List.getElem?_eq_none (by simpa using hc)]
      rfl
  | some c =>
      have hi : i < t.columns.length := (List.getElem?_eq_some_iff.mp hc).1
      rw [List.getElem?_range hi]
      exact congrArg some (h.columnIndex?_eq_some hc (sameName_refl c.name))

theorem Valid.positionsOf_names (h : t.Valid) :
    t.positionsOf [] (t.columns.map (·.name)) = .ok t.allPositions :=
  positionsOf_eq_ok_iff.mpr ⟨h.columnIndex?_names, nodup_allPositions, by simp⟩

theorem Valid.filter_columns (h : t.Valid) :
    t.columns.filter (fun c => !c.isRowtime) = t.columns.eraseIdx t.rowtimeIndex := by
  refine filter_eq_eraseIdx fun j c hc => ?_
  rw [Bool.not_eq_true', ← Bool.not_eq_true, not_congr]
  constructor
  · exact h.rowtime_only hc
  · rintro rfl
    obtain ⟨d, hd, hrowtime, -⟩ := h.rowtime
    rwa [Option.some.inj (hc.symm.trans hd)]

theorem filter_allPositions :
    (t.allPositions.filter fun i => i ≠ t.rowtimeIndex) = t.allPositions.eraseIdx t.rowtimeIndex := by
  refine filter_eq_eraseIdx fun j i hi => ?_
  obtain ⟨hj, rfl⟩ := List.getElem?_eq_some_iff.mp hi
  simp [allPositions]

theorem Valid.positionsOf_others (h : t.Valid) :
    t.positionsOf [] ((t.columns.filter fun c => !c.isRowtime).map (·.name)) =
      .ok (t.allPositions.filter fun i => i ≠ t.rowtimeIndex) := by
  refine positionsOf_eq_ok_iff.mpr ⟨?_, nodup_allPositions.filter _, by simp⟩
  rw [h.filter_columns, filter_allPositions, ← List.eraseIdx_map, ← List.eraseIdx_map,
    ← List.eraseIdx_map, h.columnIndex?_names]

theorem fill_none_of_short {values : Row} (h : values.length + 1 = t.columns.length) :
    t.fill now none values =
      t.fill now (some (t.allPositions.filter fun i => i ≠ t.rowtimeIndex)) values := by
  rw [fill, targets, if_pos h]
  rfl

theorem fill_none_of_not_short {values : Row} (h : values.length + 1 ≠ t.columns.length) :
    t.fill now none values = t.fill now (some t.allPositions) values := by
  rw [fill, targets, if_neg h]
  rfl

theorem fill_completed (h : t.rowtimeIndex < t.columns.length) (values : Row) :
    t.fill now (some t.allPositions) (t.completed values) = t.fill now none values := by
  unfold completed
  split
  · rename_i hshort
    have hr : t.rowtimeIndex < t.allPositions.length := by rwa [allPositions, List.length_range]
    have hat : t.allPositions[t.rowtimeIndex] = t.rowtimeIndex := List.getElem_range _
    have hall := List.insertIdx_eraseIdx_getElem hr
    rw [hat] at hall
    have hlength : (t.allPositions.eraseIdx t.rowtimeIndex).length + 1 = t.columns.length := by
      rw [List.length_eraseIdx_add_one hr, allPositions, List.length_range]
    have hother : t.rowtimeIndex ∉ t.allPositions.eraseIdx t.rowtimeIndex := by
      rw [← filter_allPositions]
      simp
    have hk : t.rowtimeIndex ≤ (t.allPositions.eraseIdx t.rowtimeIndex).length := by omega
    have hnull : t.unstated t.rowtimeIndex t.columns[t.rowtimeIndex] = .null := if_pos rfl
    rw [fill_none_of_short hshort, filter_allPositions,
      ← fill_insertIdx (nodup_allPositions.eraseIdx _) hother (List.getElem?_eq_getElem h) hk
        (Nat.succ.inj (hshort.trans hlength.symm)), hall, hnull]
  · rename_i hshort
    exact (fill_none_of_not_short hshort).symm

theorem Valid.rowtimeIndex_lt (h : t.Valid) : t.rowtimeIndex < t.columns.length := by
  obtain ⟨c, hc, -⟩ := h.rowtime
  exact (List.getElem?_eq_some_iff.mp hc).1

/-- Without names all columns are meant, and NULL for the row time of a tuple that is one value
short. -/
theorem Valid.prepare_completed (h : t.Valid) (tuples : List Row) :
    t.prepare now (some (t.columns.map (·.name))) (tuples.map t.completed) =
      t.prepare now none tuples := by
  have hfill : ∀ t', t.Grows t' → ∀ values ∈ tuples,
      (t'.fill now (some t.allPositions) (t.completed values)).mapError id =
        (t'.fill now none values).mapError id := by
    intro t' ht' values _
    have hpositions : t.allPositions = t'.allPositions := by
      rw [allPositions, allPositions, ht'.columns]
    have hcompleted : t.completed values = t'.completed values := by
      rw [completed, completed, ht'.columns, ht'.index]
    rw [hpositions, hcompleted, fill_completed]
    rw [ht'.columns, ht'.index]
    exact h.rowtimeIndex_lt
  have hall := fillAll_map hfill
  rw [mapError_id, mapError_id] at hall
  rw [prepare, prepare, h.positionsOf_names]
  exact hall

/-- Without names tuples that are one value short go with the columns other than the row time. -/
theorem Valid.prepare_others (h : t.Valid) {tuples : List Row}
    (hshort : ∀ values ∈ tuples, values.length + 1 = t.columns.length) :
    t.prepare now (some ((t.columns.filter fun c => !c.isRowtime).map (·.name))) tuples =
      t.prepare now none tuples := by
  have hfill : ∀ t', t.Grows t' → ∀ values ∈ tuples,
      (t'.fill now (some (t.allPositions.filter fun i => i ≠ t.rowtimeIndex)) (id values)).mapError
          id =
        (t'.fill now none values).mapError id := by
    intro t' ht' values hvalues
    rw [fill_none_of_short (by rw [ht'.columns, hshort values hvalues]), allPositions, allPositions,
      ht'.columns, ht'.index]
    rfl
  have hall := fillAll_map hfill
  rw [mapError_id, mapError_id, List.map_id] at hall
  rw [prepare, prepare, h.positionsOf_others]
  exact hall

end Table

/-! ## Statements -/

/-- Two statements are carried out alike: with the same result, or both fail, with faults that
look the same in `view`. The engine and the log are the same behind them. -/
structure Executed.Alike {ζ : Type} (view : Fault → ζ) (x y : Executed) : Prop where
  result : x.result.mapError view = y.result.mapError view
  engine : x.engine = y.engine
  log : x.log = y.log

namespace Engine

variable {e : Engine} {now : Int64} {id : UInt64} {log : Bytes} {name : String} {t : Table}

/-- What an INSERT comes to depends on the rows that are prepared for it. -/
theorem executeStatement_insert (ht : (e.enter id log).catalog.get? name = some t)
    (names : Option (List String)) (tuples : List Row) :
    e.executeStatement now id log (.insert name names tuples) =
      match t.prepare now names tuples with
      | .error why => ⟨.error why, e.enter id log, log⟩
      | .ok rows => (e.enter id log).carryOut now log
          (.record (rows.map (Operation.insert t.name)) (.command (.insert rows.length))) := by
  unfold executeStatement Engine.decide
  simp only [Statement.plan, planInsert, Catalog.table, ht, ok_bind]
  cases t.prepare now names tuples with
  | error why => rfl
  | ok rows => rfl

theorem executeStatement_insert_alike {ζ : Type} {view : Fault → ζ}
    (ht : (e.enter id log).catalog.get? name = some t) {names names' : Option (List String)}
    {tuples tuples' : List Row}
    (h : (t.prepare now names' tuples').mapError view = (t.prepare now names tuples).mapError view) :
    Executed.Alike view (e.executeStatement now id log (.insert name names' tuples'))
      (e.executeStatement now id log (.insert name names tuples)) := by
  rw [executeStatement_insert ht, executeStatement_insert ht]
  obtain ⟨rows, hrows', hrows⟩ | ⟨why', why, hwhy', hwhy, hview⟩ := mapError_eq_iff.mp h
  · rw [hrows', hrows]
    exact ⟨rfl, rfl, rfl⟩
  · rw [hwhy', hwhy]
    exact ⟨congrArg Except.error hview, rfl, rfl⟩

/-- Forms of an INSERT that mean the same do the same. The columns may be rearranged with the
values of each tuple. Without names all columns are meant in their order, and tuples that are one
value short go without the row time. A column that is left out has its default, if any, and else
NULL, and the row time has NULL. In each case the same rows are recorded, with the same row times,
or both statements fail. -/
theorem insert_forms_agree (ht : (e.enter id log).catalog.get? name = some t) (hv : t.Valid)
    (now : Int64) :
    (∀ names order tuples, order.Perm (List.range names.length) →
      Executed.Alike (fun _ => ())
        (e.executeStatement now id log
          (.insert name (some (rearranged order names)) (tuples.map (rearranged order))))
        (e.executeStatement now id log (.insert name (some names) tuples))) ∧
    (∀ tuples,
      e.executeStatement now id log
          (.insert name (some (t.columns.map (·.name))) (tuples.map t.completed)) =
        e.executeStatement now id log (.insert name none tuples)) ∧
    (∀ tuples, (∀ values ∈ tuples, values.length + 1 ≠ t.columns.length) →
      e.executeStatement now id log (.insert name (some (t.columns.map (·.name))) tuples) =
        e.executeStatement now id log (.insert name none tuples)) ∧
    (∀ tuples, (∀ values ∈ tuples, values.length + 1 = t.columns.length) →
      e.executeStatement now id log
          (.insert name (some ((t.columns.filter fun c => !c.isRowtime).map (·.name))) tuples) =
        e.executeStatement now id log (.insert name none tuples)) ∧
    (∀ c ∈ t.columns, c.isRowtime = false → ∀ x names k tuples, sameName c.name x = true →
      (∀ n ∈ names, sameName c.name n = false) → k ≤ names.length →
      Executed.Alike Fault.kind
        (e.executeStatement now id log (.insert name (some (names.insertIdx k x))
          (tuples.map fun values => values.insertIdx k (c.defaultValue.getD .null))))
        (e.executeStatement now id log (.insert name (some names) tuples))) ∧
    ∀ x names k tuples, sameName rowtimeName x = true →
      (∀ n ∈ names, sameName rowtimeName n = false) → k ≤ names.length →
      Executed.Alike Fault.kind
        (e.executeStatement now id log (.insert name (some (names.insertIdx k x))
          (tuples.map fun values => values.insertIdx k .null)))
        (e.executeStatement now id log (.insert name (some names) tuples)) := by
  have hcompleted : ∀ tuples, e.executeStatement now id log
      (.insert name (some (t.columns.map (·.name))) (tuples.map t.completed)) =
        e.executeStatement now id log (.insert name none tuples) := by
    intro tuples
    rw [executeStatement_insert ht, executeStatement_insert ht, hv.prepare_completed]
  have hleft : ∀ i c, t.columns[i]? = some c → ∀ x names k tuples, sameName c.name x = true →
      (∀ n ∈ names, sameName c.name n = false) → k ≤ names.length →
      Executed.Alike Fault.kind
        (e.executeStatement now id log (.insert name (some (names.insertIdx k x))
          (tuples.map fun values => values.insertIdx k (t.unstated i c))))
        (e.executeStatement now id log (.insert name (some names) tuples)) := by
    intro i c hc x names k tuples hx hnames hk
    refine executeStatement_insert_alike ht
      (Table.prepare_insertIdx (hv.columnIndex?_eq_some hc hx) hc (fun n hn hni => ?_) hk tuples)
    obtain ⟨d, hd, hsame⟩ := Table.sameName_of_columnIndex? hni
    obtain rfl := Option.some.inj (hc.symm.trans hd)
    rw [hnames n hn] at hsame
    cases hsame
  refine ⟨?_, hcompleted, ?_, ?_, ?_, ?_⟩
  · intro names order tuples horder
    exact executeStatement_insert_alike ht (Table.prepare_rearranged horder tuples)
  · intro tuples hlong
    have hid : tuples.map t.completed = tuples :=
      (List.map_congr_left fun values hvalues => if_neg (hlong values hvalues)).trans
        (List.map_id tuples)
    rw [← hcompleted, hid]
  · intro tuples hshort
    rw [executeStatement_insert ht, executeStatement_insert ht, hv.prepare_others hshort]
  · intro c hc hrowtime x names k tuples hx hnames hk
    obtain ⟨i, hi⟩ := List.getElem?_of_mem hc
    have hother : i ≠ t.rowtimeIndex := by
      rintro rfl
      obtain ⟨d, hd, hd', -⟩ := hv.rowtime
      obtain rfl := Option.some.inj (hi.symm.trans hd)
      rw [hrowtime] at hd'
      cases hd'
    have hunstated : t.unstated i c = c.defaultValue.getD .null := if_neg hother
    rw [← hunstated]
    exact hleft i c hi x names k tuples hx hnames hk
  · intro x names k tuples hx hnames hk
    obtain ⟨c, hc, hrowtime, -⟩ := hv.rowtime
    have hunstated : t.unstated t.rowtimeIndex c = .null := if_pos rfl
    rw [← hunstated]
    refine hleft t.rowtimeIndex c hc x names k tuples (sameName_trans hrowtime hx) ?_ hk
    exact fun n hn => (sameName_congr hrowtime n).trans (hnames n hn)

/-- An engine that has created `gauges (level INTEGER DEFAULT 5, rowtime BIGINT NOT NULL, unit
TEXT)`, and its log. -/
def gaugesMade : Executed :=
  blank.executeStatement 7 1 [] (.createTable "gauges"
    [⟨"level", .integer, true, false, false, some (.integer 5)⟩,
      ⟨"rowtime", .bigInt, false, false, false, none⟩,
      ⟨"unit", .text, true, false, false, none⟩] false)

/-- The table of that engine. -/
def gauges : Table :=
  ⟨"gauges", [⟨"level", .integer, true, false, false, some (.integer 5)⟩,
    ⟨"rowtime", .bigInt, false, true, true, none⟩, ⟨"unit", .text, true, false, false, none⟩], [], 1,
    0⟩

/-- What an INSERT into that table comes to at the clock reading 7. -/
def insertedGauges (names : Option (List String)) (tuples : List Row) : Executed :=
  gaugesMade.engine.executeStatement 7 1 gaugesMade.log (.insert "gauges" names tuples)

/-- Forms of INSERT into a table whose row time is between the other columns. -/
theorem insert_forms_agree_gauges :
    (gaugesMade.engine.enter 1 gaugesMade.log).catalog.get? "gauges" = some gauges ∧
      gauges.Valid ∧
      gauges.prepare 7 none [[.integer 1, .text "m"], [.integer 2, .integer 9, .text "s"]] =
        .ok [[.integer 1, .integer 7, .text "m"], [.integer 2, .integer 9, .text "s"]] ∧
      gauges.prepare 7 (some ["unit"]) [[.text "m"], [.text "s"]] =
        .ok [[.integer 5, .integer 7, .text "m"], [.integer 5, .integer 8, .text "s"]] ∧
      Executed.Alike (fun _ => ())
        (insertedGauges (some ["LEVEL", "unit"]) [[.integer 1, .text "m"], [.integer 2, .text "s"]])
        (insertedGauges (some ["unit", "LEVEL"]) [[.text "m", .integer 1], [.text "s", .integer 2]]) ∧
      insertedGauges (some ["level", "rowtime", "unit"])
          [[.integer 1, .null, .text "m"], [.integer 2, .integer 9, .text "s"]] =
        insertedGauges none [[.integer 1, .text "m"], [.integer 2, .integer 9, .text "s"]] ∧
      insertedGauges (some ["level", "rowtime", "unit"]) [[.integer 2, .integer 9, .text "s"]] =
        insertedGauges none [[.integer 2, .integer 9, .text "s"]] ∧
      insertedGauges (some ["level", "unit"]) [[.integer 1, .text "m"]] =
        insertedGauges none [[.integer 1, .text "m"]] ∧
      Executed.Alike Fault.kind (insertedGauges (some ["unit", "Level"]) [[.text "m", .integer 5]])
        (insertedGauges (some ["unit"]) [[.text "m"]]) ∧
      Executed.Alike Fault.kind (insertedGauges (some ["unit", "Rowtime"]) [[.text "m", .null]])
        (insertedGauges (some ["unit"]) [[.text "m"]]) := by
  have ht : (gaugesMade.engine.enter 1 gaugesMade.log).catalog.get? "gauges" = some gauges := by
    decide +kernel
  have hcreate : Table.create "gauges" [⟨"level", .integer, true, false, false, some (.integer 5)⟩,
      ⟨"rowtime", .bigInt, false, false, false, none⟩,
      ⟨"unit", .text, true, false, false, none⟩] = .ok gauges := by decide +kernel
  have hv : gauges.Valid := (Table.create_spec hcreate).1
  obtain ⟨hrearranged, hcompleted, hall, hothers, hdefault, hrowtime⟩ := insert_forms_agree ht hv 7
  have hlevel : (⟨"level", .integer, true, false, false, some (.integer 5)⟩ : Column) ∈
      gauges.columns := List.mem_cons_self
  refine ⟨ht, hv, by decide +kernel, by decide +kernel, ?_, ?_, ?_, ?_, ?_, ?_⟩
  · exact hrearranged ["unit", "LEVEL"] [1, 0] [[.text "m", .integer 1], [.text "s", .integer 2]]
      (by decide)
  · exact hcompleted [[.integer 1, .text "m"], [.integer 2, .integer 9, .text "s"]]
  · exact hall [[.integer 2, .integer 9, .text "s"]] (by decide)
  · exact hothers [[.integer 1, .text "m"]] (by decide)
  · exact hdefault _ hlevel (by decide +kernel) "Level" ["unit"] 1 [[.text "m"]] (by decide +kernel)
      (by decide +kernel) (by decide)
  · exact hrowtime "Rowtime" ["unit"] 1 [[.text "m"]] (by decide +kernel) (by decide +kernel)
      (by decide)

end Engine

end Rowtime
