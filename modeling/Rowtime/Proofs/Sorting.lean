import Rowtime.Proofs.Comparison
import Rowtime.Proofs.Traces

/-!
# The order of sorting

The comparison by which rows are sorted gives an answer for any two values. It takes what has no
order for equal, and so it is no order of all values: two is equal to a text and the text is equal
to one. Even values that can all be compared with each other do not stand in one order, since a text
is compared with a date as a date, and with a text as a text. But it is a total preorder on each
family of kinds together with NULL, and so are its lists of keys, one family for each position. Rows
with such keys come out of the sorting in order, and those whose keys are equal in the order they
came in.
-/
namespace Rowtime

open Sql

/-! ## Consistent comparisons -/

/-- A comparison is a total preorder on the elements with a property. -/
structure ConsistentOn {α : Type} (cmp : α → α → Ordering) (p : α → Prop) : Prop where
  swap : ∀ a b, p a → p b → cmp b a = (cmp a b).swap
  trans : ∀ a b c, p a → p b → p c → (cmp a b).isLE = true → (cmp b c).isLE = true →
    (cmp a c).isLE = true

namespace ConsistentOn

variable {α : Type} {cmp : α → α → Ordering} {p : α → Prop} {a b c : α}

/-- Of two elements one is at most the other. -/
theorem total (h : ConsistentOn cmp p) (ha : p a) (hb : p b) (hab : cmp a b ≠ .lt) :
    (cmp b a).isLE = true := by
  rw [h.swap a b ha hb]
  cases hc : cmp a b with
  | lt => exact absurd hc hab
  | eq | gt => rfl

/-- Elements that are at most each other are equal. -/
theorem antisymm (h : ConsistentOn cmp p) (ha : p a) (hb : p b) (hab : (cmp a b).isLE = true)
    (hba : (cmp b a).isLE = true) : cmp a b = .eq := by
  rw [h.swap a b ha hb] at hba
  cases hc : cmp a b with
  | lt => rw [hc] at hba; cases hba
  | eq => rfl
  | gt => rw [hc] at hab; cases hab

/-- What lies between equal elements is equal to them. -/
theorem between (h : ConsistentOn cmp p) (ha : p a) (hb : p b) (hc : p c)
    (hab : (cmp a b).isLE = true) (hbc : (cmp b c).isLE = true) (hac : cmp a c = .eq) :
    cmp a b = .eq ∧ cmp b c = .eq := by
  have hca : (cmp c a).isLE = true := h.total ha hc (by simp [hac])
  exact ⟨h.antisymm ha hb hab (h.trans b c a hb hc ha hbc hca),
    h.antisymm hb hc hbc (h.trans c a b hc ha hb hca hab)⟩

/-- The comparison in the other direction. -/
theorem reversed (h : ConsistentOn cmp p) : ConsistentOn (fun a b => (cmp a b).swap) p := by
  constructor
  · intro a b ha hb
    rw [h.swap a b ha hb]
  · intro a b c ha hb hc hab hbc
    rw [← h.swap a b ha hb] at hab
    rw [← h.swap b c hb hc] at hbc
    rw [← h.swap a c ha hc]
    exact h.trans c b a hc hb ha hbc hab

end ConsistentOn

/-! ## Values -/

namespace Value

/-- From the other side, the comparison of sorting gives the reverse. -/
theorem sortCompare_swap (a b : Value) : b.sortCompare a = (a.sortCompare b).swap := by
  unfold sortCompare
  cases a.isNull <;> cases b.isNull <;> try rfl
  cases hab : a.compare? b with
  | ok o =>
      rw [compare?_swap hab]
      cases o <;> rfl
  | error why =>
      cases hba : b.compare? a with
      | ok o =>
          rw [compare?_swap hba] at hab
          cases hab
      | error why => rfl

theorem sortCompare_self (v : Value) : v.sortCompare v = .eq := by
  have hswap := sortCompare_swap v v
  cases h : v.sortCompare v with
  | eq => rfl
  | lt | gt => rw [h] at hswap; cases hswap

/-- The values of a family, and NULL. -/
def Family.Sorts (F : Family) (v : Value) : Prop := v = .null ∨ F.Has v

theorem Family.Has.not_null {F : Family} {v : Value} (h : F.Has v) : v.isNull = false := by
  cases h <;> rfl

/-- Values of a family are sorted by their order. -/
theorem Family.Has.sortCompare {F : Family} {a b : Value} (ha : F.Has a) (hb : F.Has b) :
    (a.sortCompare b).isLE = true ↔ a.AtMost b := by
  obtain ⟨o, ho⟩ := F.totalPreorder.ordered a b ha hb
  have hs : a.sortCompare b = o := by
    simp only [Value.sortCompare, ha.not_null, hb.not_null, ho]
  rw [hs, AtMost, ho]
  simp

/-- NULL comes before every value, and no other value comes before it. -/
theorem null_sortCompare (v : Value) : (Value.null.sortCompare v).isLE = true := by
  cases v <;> rfl

theorem sortCompare_null {v : Value} (h : (v.sortCompare .null).isLE = true) : v = .null := by
  cases v <;> first | rfl | cases h

/-- The comparison of sorting is a total preorder on a family and NULL. -/
theorem Family.sorts_consistent (F : Family) : ConsistentOn Value.sortCompare F.Sorts := by
  refine ⟨fun a b _ _ => sortCompare_swap a b, ?_⟩
  rintro a b c (rfl | ha) hb hc hab hbc
  · exact null_sortCompare c
  · rcases hb with rfl | hb
    · cases sortCompare_null hab
      exact absurd ha.not_null (by decide)
    · rcases hc with rfl | hc
      · cases sortCompare_null hbc
        exact absurd hb.not_null (by decide)
      · rw [ha.sortCompare hb] at hab
        rw [hb.sortCompare hc] at hbc
        rw [ha.sortCompare hc]
        exact F.totalPreorder.trans a b c ha hb hc hab hbc

end Value

/-! ## Values of two families -/

namespace Value

/-- The first value is at most the second and the second at most the third, and yet the first comes
after the third. -/
def Astray (a b c : Value) : Prop :=
  (a.sortCompare b).isLE = true ∧ (b.sortCompare c).isLE = true ∧ a.sortCompare c = .gt

instance (a b c : Value) : Decidable (a.Astray b c) :=
  inferInstanceAs (Decidable (_ ∧ _ ∧ _))

theorem Astray.not_consistent {a b c : Value} (h : a.Astray b c) {p : Value → Prop} (ha : p a)
    (hb : p b) (hc : p c) : ¬ConsistentOn Value.sortCompare p := by
  intro hconsistent
  have hac := hconsistent.trans a b c ha hb hc h.1 h.2.1
  rw [h.2.2] at hac
  cases hac

/-- A value of a family, less than `Family.high`. The two exact numbers are rounded to the same
number of double precision. -/
def Family.low : Family → Value
  | .exact => .integer 9007199254740992
  | .approximate => .real ⟨4845873199050653696⟩
  | .text => .text "a"
  | .boolean => .boolean false
  | .date => .date ⟨2024, 9, 15, Eq.refl true⟩
  | .timestamp => .timestamp ⟨⟨2024, 9, 15, Eq.refl true⟩, .midnight⟩
  | .timestampTz => .timestampTz ⟨⟨2024, 9, 15, Eq.refl true⟩, .midnight⟩
  | .uuid => .uuid ((Uuid.ofNat? 0).get (Eq.refl true))
  | .json => .json "0"
  | .bytea => .bytea [0]

/-- A value of a family, greater than `Family.low`. -/
def Family.high : Family → Value
  | .exact => .integer 9007199254740993
  | .approximate => .real ⟨4845873199050653697⟩
  | .text => .text "b"
  | .boolean => .boolean true
  | .date => .date ⟨2024, 9, 16, Eq.refl true⟩
  | .timestamp => .timestamp ⟨⟨2024, 9, 16, Eq.refl true⟩, .midnight⟩
  | .timestampTz => .timestampTz ⟨⟨2024, 9, 16, Eq.refl true⟩, .midnight⟩
  | .uuid => .uuid ((Uuid.ofNat? 1).get (Eq.refl true))
  | .json => .json "1"
  | .bytea => .bytea [1]

theorem Family.has_low (F : Family) : F.Has F.low := by
  cases F <;> constructor
  rfl

theorem Family.has_high (F : Family) : F.Has F.high := by
  cases F <;> constructor
  rfl

/-- A value of another family is taken for equal to the two values of a family. -/
theorem Family.astray {F G : Family} (h : F ≠ G) (hrounded : F = .approximate → G ≠ .exact) :
    F.high.Astray G.low F.low := by
  cases F <;> cases G <;>
    first
    | exact absurd rfl h
    | exact absurd rfl (hrounded rfl)
    | decide +kernel

/-- No two families stand in one order. -/
theorem Family.apart {F G : Family} (h : F ≠ G) :
    ¬ConsistentOn Value.sortCompare fun v => F.Sorts v ∨ G.Sorts v := by
  by_cases hrounded : F = .approximate ∧ G = .exact
  · have hastray : G.high.Astray F.low G.low := by
      obtain ⟨rfl, rfl⟩ := hrounded
      exact astray (by decide) (by decide)
    exact hastray.not_consistent (.inr (.inr G.has_high)) (.inl (.inr F.has_low))
      (.inr (.inr G.has_low))
  · have hastray : F.high.Astray G.low F.low :=
      astray h fun hF hG => hrounded ⟨hF, hG⟩
    exact hastray.not_consistent (.inl (.inr F.has_high)) (.inr (.inr G.has_low))
      (.inl (.inr F.has_low))

/-- What is not a number stands in no order with a family. -/
theorem Family.apart_nan (F : Family) :
    ¬ConsistentOn Value.sortCompare fun v => F.Sorts v ∨ v = .real .nan := by
  have hastray : F.high.Astray (.real .nan) F.low := by cases F <;> decide +kernel
  exact hastray.not_consistent (.inl (.inr F.has_high)) (.inr rfl) (.inl (.inr F.has_low))

end Value

/-! ## Keys -/

/-- The comparison of one key in its direction. -/
def Sql.SortOrder.compare (o : SortOrder) (a b : Value) : Ordering :=
  if o == .desc then (a.sortCompare b).swap else a.sortCompare b

theorem Sql.SortOrder.consistent (o : SortOrder) (F : Value.Family) :
    ConsistentOn o.compare F.Sorts := by
  cases o with
  | asc => exact F.sorts_consistent
  | desc => exact F.sorts_consistent.reversed

theorem Sql.SortOrder.compare_swap (o : SortOrder) (a b : Value) :
    o.compare b a = (o.compare a b).swap := by
  cases o with
  | asc => exact Value.sortCompare_swap a b
  | desc => exact congrArg Ordering.swap (Value.sortCompare_swap a b)

theorem compareKeys_cons (o : SortOrder) (os : List SortOrder) (a b : Value) (as bs : List Value) :
    compareKeys (o :: os) (a :: as) (b :: bs) = (o.compare a b).then (compareKeys os as bs) := by
  rw [compareKeys, SortOrder.compare]
  cases (if o == .desc then (a.sortCompare b).swap else a.sortCompare b) <;> rfl

theorem compareKeys_swap (orders : List SortOrder) (as bs : List Value) :
    compareKeys orders bs as = (compareKeys orders as bs).swap := by
  induction orders generalizing as bs with
  | nil => rfl
  | cons o os ih =>
      cases as with
      | nil => cases bs <;> rfl
      | cons a as =>
          cases bs with
          | nil => rfl
          | cons b bs =>
              rw [compareKeys_cons, compareKeys_cons, ih, o.compare_swap a b, Ordering.swap_then]

/-- The comparison of key lists is a total preorder where each position has its family. -/
theorem compareKeys_consistent (orders : List SortOrder) (Fs : List Value.Family) :
    ConsistentOn (compareKeys orders) (List.Forall₂ Value.Family.Sorts Fs) := by
  refine ⟨fun as bs _ _ => compareKeys_swap orders as bs, ?_⟩
  intro as bs cs has hbs hcs hab hbc
  induction orders generalizing Fs as bs cs with
  | nil => rfl
  | cons o os ih =>
      cases has with
      | nil =>
          cases hcs
          rfl
      | @cons F a Fs as ha has =>
          obtain ⟨b, bs, hb, hbr, rfl⟩ := List.forall₂_cons_left_iff.mp hbs
          obtain ⟨c, cs, hc, hcr, rfl⟩ := List.forall₂_cons_left_iff.mp hcs
          have hkey := o.consistent F
          rw [compareKeys_cons, Ordering.isLE_then_iff_and] at hab hbc
          rw [compareKeys_cons]
          have hac := hkey.trans a b c ha hb hc hab.1 hbc.1
          cases heq : o.compare a c with
          | lt => rfl
          | gt => rw [heq] at hac; cases hac
          | eq =>
              -- Equal ends have equal keys between them, and the rest of the keys decides.
              obtain ⟨hab', hbc'⟩ := hkey.between ha hb hc hab.1 hbc.1 heq
              simp only [hab', hbc', reduceCtorEq, false_or] at hab hbc
              exact ih Fs as bs cs has hbr hcr hab.2 hbc.2

/-! ## Sorting with places -/

section Places

variable {α β : Type} {cmp : α → α → Ordering} {p : α → Prop}

theorem insertLast_map (less : β → β → Bool) (f : α → β) (x : α) (xs : List α) :
    (insertLast (fun a b => less (f a) (f b)) x xs).map f = insertLast less (f x) (xs.map f) := by
  induction xs with
  | nil => rfl
  | cons y r ih =>
      rw [List.map_cons, insertLast, insertLast]
      split
      · rw [List.map_cons, ih]
      · rfl

/-- Sorting by a property of the elements sorts the properties. -/
theorem stableSort_map (less : β → β → Bool) (f : α → β) (xs : List α) :
    (stableSort (fun a b => less (f a) (f b)) xs).map f = stableSort less (xs.map f) := by
  have hfold : ∀ acc : List α,
      (xs.foldl (fun acc x => insertLast (fun a b => less (f a) (f b)) x acc) acc).map f =
        (xs.map f).foldl (fun acc x => insertLast less x acc) (acc.map f) := by
    induction xs with
    | nil => exact fun _ => rfl
    | cons x xs ih =>
        intro acc
        rw [List.foldl_cons, ih, insertLast_map, List.map_cons, List.foldl_cons]
  rw [stableSort, List.map_reverse, hfold]
  rfl

/-- An element with its place comes before another one by the comparison, or is equal and comes
first. -/
def PlacedBefore (cmp : α → α → Ordering) (x y : α × Nat) : Prop :=
  cmp x.1 y.1 = .lt ∨ (cmp x.1 y.1 = .eq ∧ x.2 < y.2)

theorem PlacedBefore.of_isLE {x y : α × Nat} (h : (cmp x.1 y.1).isLE = true) (hplace : x.2 < y.2) :
    PlacedBefore cmp x y := by
  cases hc : cmp x.1 y.1 with
  | lt => exact .inl hc
  | eq => exact .inr ⟨hc, hplace⟩
  | gt => rw [hc] at h; cases h

theorem PlacedBefore.isLE {x y : α × Nat} (h : PlacedBefore cmp x y) :
    (cmp x.1 y.1).isLE = true := by
  obtain h | ⟨h, -⟩ := h <;> rw [h] <;> rfl

/-- Putting in an element with a later place keeps elements of lists that run from the last to the
first in order. -/
theorem insertLast_placed (h : ConsistentOn cmp p) {x : α × Nat} (hx : p x.1)
    {xs : List (α × Nat)} (hxs : ∀ y ∈ xs, p y.1 ∧ y.2 < x.2)
    (hs : xs.Pairwise fun a b => PlacedBefore cmp b a) :
    (insertLast (fun a b => cmp a.1 b.1 == .lt) x xs).Pairwise fun a b => PlacedBefore cmp b a := by
  induction xs with
  | nil => exact List.pairwise_singleton _ x
  | cons y r ih =>
      obtain ⟨⟨hy, hplace⟩, hr⟩ := List.forall_mem_cons.mp hxs
      obtain ⟨hfirst, hrest⟩ := List.pairwise_cons.mp hs
      unfold insertLast
      split
      · rename_i hless
        rw [beq_iff_eq] at hless
        refine List.pairwise_cons.mpr ⟨fun z hz => ?_, ih hr hrest⟩
        rcases List.mem_cons.mp ((Relation.insertLast_perm _ x r).mem_iff.mp hz) with rfl | hz
        · exact .inl hless
        · exact hfirst z hz
      · rename_i hless
        have hyx : (cmp y.1 x.1).isLE = true := h.total hx hy (by simpa using hless)
        refine List.pairwise_cons.mpr ⟨fun z hz => ?_, hs⟩
        rcases List.mem_cons.mp hz with rfl | hz
        · exact .of_isLE hyx hplace
        · obtain ⟨hpz, hzplace⟩ := hr z hz
          exact .of_isLE (h.trans z.1 y.1 x.1 hpz hy hx (hfirst z hz).isLE hyx) hzplace

/-- Sorting by a consistent comparison puts the elements in order, equal ones by their places. -/
theorem stableSort_placed (h : ConsistentOn cmp p) {xs : List α} (hxs : ∀ x ∈ xs, p x) :
    (stableSort (fun a b => cmp a.1 b.1 == .lt) xs.zipIdx).Pairwise (PlacedBefore cmp) := by
  have hfold : ∀ (xs : List α) (n : Nat) (acc : List (α × Nat)), (∀ x ∈ xs, p x) →
      (∀ y ∈ acc, p y.1 ∧ y.2 < n) → acc.Pairwise (fun a b => PlacedBefore cmp b a) →
      ((xs.zipIdx n).foldl (fun acc x => insertLast (fun a b => cmp a.1 b.1 == .lt) x acc)
        acc).Pairwise fun a b => PlacedBefore cmp b a := by
    intro xs
    induction xs with
    | nil => exact fun _ _ _ _ hacc => hacc
    | cons x xs ih =>
        intro n acc hxs hacc hs
        obtain ⟨hx, hxs⟩ := List.forall_mem_cons.mp hxs
        refine ih (n + 1) _ hxs (fun y hy => ?_) (insertLast_placed h hx hacc hs)
        have hmem := (Relation.insertLast_perm _ (x, n) acc).mem_iff.mp hy
        rcases List.mem_cons.mp hmem with rfl | hy
        · exact ⟨hx, Nat.lt_succ_self n⟩
        · exact ⟨(hacc y hy).1, Nat.lt_succ_of_lt (hacc y hy).2⟩
  exact List.pairwise_reverse.mpr (hfold xs 0 [] hxs (by simp) .nil)

/-- Sorting by a consistent comparison puts the elements in order. -/
theorem stableSort_sorted (h : ConsistentOn cmp p) {xs : List α} (hxs : ∀ x ∈ xs, p x) :
    (stableSort (fun a b => cmp a b == .lt) xs).Pairwise fun a b => (cmp a b).isLE = true := by
  have hfirst := stableSort_map (fun a b => cmp a b == .lt) Prod.fst xs.zipIdx
  rw [List.zipIdx_map_fst] at hfirst
  rw [← hfirst, List.pairwise_map]
  exact (stableSort_placed h hxs).imp PlacedBefore.isLE

end Places

/-! ## Rows -/

/-- The comparison of rows by their keys is a total preorder where each position has its family. -/
theorem compareKeyedRows_consistent (orders : List SortOrder) (Fs : List Value.Family) :
    ConsistentOn (fun x y : KeyedRow => compareKeys orders x.keys y.keys)
      (fun x => List.Forall₂ Value.Family.Sorts Fs x.keys) := by
  have hkeys := compareKeys_consistent orders Fs
  exact ⟨fun x y => hkeys.swap x.keys y.keys, fun x y z => hkeys.trans x.keys y.keys z.keys⟩

/-- The rows in the order of keys that have a family for each position. -/
theorem sortRows_sorted {orders : List SortOrder} {Fs : List Value.Family} {rows : List KeyedRow}
    (h : ∀ x ∈ rows, List.Forall₂ Value.Family.Sorts Fs x.keys) :
    (sortRows orders rows).Pairwise fun x y => (compareKeys orders x.keys y.keys).isLE = true := by
  unfold sortRows
  split
  · rename_i hnone
    obtain rfl := List.isEmpty_iff.mp hnone
    exact List.pairwise_of_forall fun _ _ => rfl
  · exact stableSort_sorted (compareKeyedRows_consistent orders Fs) h

/-- The comparison of sorting takes each value for equal to itself, and gives the reverse from the
other side. On a family and NULL it is a total preorder, but not on two families, nor on a family
and what is not a number. Where each position of the keys has its family, the comparison of the keys
is a total preorder, and the rows are put in order. -/
theorem Value.sorting_consistent (orders : List SortOrder) (Fs : List Family) {rows : List KeyedRow}
    (hkeys : ∀ x ∈ rows, List.Forall₂ Family.Sorts Fs x.keys) :
    (∀ v : Value, v.sortCompare v = .eq) ∧
      (∀ a b : Value, b.sortCompare a = (a.sortCompare b).swap) ∧
      (∀ F : Family, ConsistentOn Value.sortCompare F.Sorts ∧
        (∀ G, F ≠ G → ¬ConsistentOn Value.sortCompare fun v => F.Sorts v ∨ G.Sorts v) ∧
        ¬ConsistentOn Value.sortCompare fun v => F.Sorts v ∨ v = .real .nan) ∧
      ConsistentOn (compareKeys orders) (List.Forall₂ Family.Sorts Fs) ∧
      (sortRows orders rows).Perm rows ∧
      (sortRows orders rows).Pairwise fun x y => (compareKeys orders x.keys y.keys).isLE = true :=
  ⟨sortCompare_self, sortCompare_swap,
    fun F => ⟨F.sorts_consistent, fun _ => Family.apart, F.apart_nan⟩,
    compareKeys_consistent orders Fs, Relation.sortRows_perm orders rows, sortRows_sorted hkeys⟩

/-- Rows with the keys 3 and 'b', NULL and 'a', the decimal 3 and 'a'. -/
def mixedRows : List KeyedRow :=
  [⟨[.integer 1], [.smallInt 3, .text "b"]⟩, ⟨[.integer 2], [.null, .char "a "]⟩,
    ⟨[.integer 3], [.numeric (.ofInt 3), .text "a"]⟩]

theorem Value.sorting_consistent_mixed :
    (sortRows [.desc, .asc] mixedRows).map (·.row) = [[.integer 3], [.integer 1], [.integer 2]] ∧
      (sortRows [.desc, .asc] mixedRows).Pairwise fun x y =>
        (compareKeys [.desc, .asc] x.keys y.keys).isLE = true := by
  have hkeys : ∀ x ∈ mixedRows, List.Forall₂ Family.Sorts [.exact, .text] x.keys := by
    intro x hx
    simp only [mixedRows, List.mem_cons, List.not_mem_nil, or_false] at hx
    rcases hx with rfl | rfl | rfl
    · exact .cons (.inr (.smallInt 3)) (.cons (.inr (.text "b")) .nil)
    · exact .cons (.inl rfl) (.cons (.inr (.char "a ")) .nil)
    · exact .cons (.inr (.numeric _)) (.cons (.inr (.text "a")) .nil)
  obtain ⟨-, -, -, -, -, hsorted⟩ := Value.sorting_consistent [.desc, .asc] [.exact, .text] hkeys
  exact ⟨by decide +kernel, hsorted⟩

/-- A text has no order with numbers, and neither has what is not a number. Integers are compared
with a number of double precision after rounding, and a text with a date as a date. So the
comparison of sorting is no total preorder of all values, and rows stay out of order. -/
theorem Value.sorting_astray :
    (¬ConsistentOn Value.sortCompare fun _ => True) ∧
      Astray (.integer 2) (.text "a") (.integer 1) ∧
      Astray (.real ⟨4611686018427387904⟩) (.real .nan) (.real ⟨4607182418800017408⟩) ∧
      Astray (.integer 9007199254740993) (.real ⟨4845873199050653696⟩) (.integer 9007199254740992) ∧
      Astray (.date ⟨2024, 9, 15, by decide⟩) (.text " 2024-10-01") (.text "2024-09-01") ∧
      (sortRows [.asc] [⟨[], [.text " 2024-10-01"]⟩, ⟨[], [.date ⟨2024, 9, 15, by decide⟩]⟩,
          ⟨[], [.text "2024-09-01"]⟩]).map (·.keys) =
        [[.date ⟨2024, 9, 15, by decide⟩], [.text " 2024-10-01"], [.text "2024-09-01"]] := by
  have hfirst : Astray (.integer 2) (.text "a") (.integer 1) := by decide +kernel
  exact ⟨hfirst.not_consistent trivial trivial trivial, hfirst, by decide +kernel⟩

end Rowtime
