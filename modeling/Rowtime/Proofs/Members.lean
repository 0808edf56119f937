import Mathlib.Data.List.Dedup
import Rowtime.Follow.Record
import Rowtime.Proofs.Numerals

/-!
# The members of a record

An object has its members in the order of their names, each name once: of several
members with one name the last one is left. So the record of a row keeps the value of
every column exactly if the keys of the columns differ.

The key of a column is its name, or the name and the position when the name occurred
before. Two keys with a position differ, since the position is read back from behind the
last underline. What can happen is that such a key is the name of another column, before
or behind it; then the value of one of the two is lost.
-/
namespace Rowtime

open Text

/-! ## Objects -/

namespace Json

/-- The members of an object that is made of the given ones. -/
def gathered (ms : List (String × Json)) : List (String × Json) :=
  ms.foldl (fun acc m => insertMember m.1 m.2 acc) []

theorem ofMembers_eq (ms : List (String × Json)) : ofMembers ms = .object (gathered ms) := rfl

theorem gathered_concat (ms : List (String × Json)) (m : String × Json) :
    gathered (ms ++ [m]) = insertMember m.1 m.2 (gathered ms) := by
  rw [gathered, List.foldl_append]
  rfl

/-- Members in the order of their names, each name once. -/
def Ascending (ms : List (String × Json)) : Prop := ms.Pairwise fun a b => a.1 < b.1

theorem mem_insertMember {ms : List (String × Json)} (h : Ascending ms) {k : String} {v : Json}
    {m : String × Json} : m ∈ insertMember k v ms ↔ m = (k, v) ∨ m ∈ ms ∧ m.1 ≠ k := by
  induction ms with
  | nil => simp [insertMember]
  | cons m' ms ih =>
      obtain ⟨k', v'⟩ := m'
      obtain ⟨hfirst, hrest⟩ := List.pairwise_cons.mp h
      unfold insertMember
      split
      · rename_i hlt
        have hbehind : ∀ x ∈ (k', v') :: ms, x.1 ≠ k := by
          refine List.forall_mem_cons.mpr ⟨(String.ne_of_lt hlt).symm, fun x hx => ?_⟩
          exact (String.ne_of_lt (String.lt_trans hlt (hfirst x hx))).symm
        rw [List.mem_cons]
        exact or_congr_right ⟨fun hm => ⟨hm, hbehind m hm⟩, And.left⟩
      · split
        · rename_i he
          obtain rfl : k = k' := beq_iff_eq.mp he
          rw [List.mem_cons, List.mem_cons]
          refine or_congr_right ⟨fun hm => ⟨.inr hm, (String.ne_of_lt (hfirst m hm)).symm⟩, ?_⟩
          rintro ⟨rfl | hm, hne⟩
          · exact absurd rfl hne
          · exact hm
        · rename_i hne
          have hk : k' ≠ k := fun he => hne (beq_iff_eq.mpr he.symm)
          rw [List.mem_cons, List.mem_cons, ih hrest]
          constructor
          · rintro (rfl | rfl | ⟨hm, hmk⟩)
            · exact .inr ⟨.inl rfl, hk⟩
            · exact .inl rfl
            · exact .inr ⟨.inr hm, hmk⟩
          · rintro (rfl | ⟨rfl | hm, hmk⟩)
            · exact .inr (.inl rfl)
            · exact .inl rfl
            · exact .inr (.inr ⟨hm, hmk⟩)

theorem Ascending.insertMember {ms : List (String × Json)} (h : Ascending ms) (k : String)
    (v : Json) : Ascending (insertMember k v ms) := by
  induction ms with
  | nil => simp [Json.insertMember, Ascending]
  | cons m' ms ih =>
      obtain ⟨k', v'⟩ := m'
      obtain ⟨hfirst, hrest⟩ := List.pairwise_cons.mp h
      unfold Json.insertMember
      split
      · rename_i hlt
        refine List.pairwise_cons.mpr ⟨List.forall_mem_cons.mpr ⟨hlt, fun x hx => ?_⟩, h⟩
        exact String.lt_trans hlt (hfirst x hx)
      · rename_i hnlt
        split
        · rename_i he
          obtain rfl : k = k' := beq_iff_eq.mp he
          exact List.pairwise_cons.mpr ⟨hfirst, hrest⟩
        · rename_i hne
          have hlt : k' < k := by
            refine String.not_le.mp fun hle => hne (beq_iff_eq.mpr ?_)
            exact String.le_antisymm hle (String.not_lt.mp hnlt)
          refine List.pairwise_cons.mpr ⟨fun x hx => ?_, ih hrest⟩
          rcases (mem_insertMember hrest).mp hx with rfl | ⟨hx, -⟩
          · exact hlt
          · exact hfirst x hx

theorem gathered_ascending (ms : List (String × Json)) : Ascending (gathered ms) := by
  induction ms using List.reverseRecOn with
  | nil => exact .nil
  | append_singleton ms m ih =>
      rw [gathered_concat]
      exact ih.insertMember m.1 m.2

theorem mem_names_gathered {ms : List (String × Json)} {k : String} :
    k ∈ (gathered ms).map (·.1) ↔ k ∈ ms.map (·.1) := by
  induction ms using List.reverseRecOn with
  | nil => rfl
  | append_singleton ms m ih =>
      have hinsert : k ∈ (gathered (ms ++ [m])).map (·.1) ↔
          k ∈ (gathered ms).map (·.1) ∨ k = m.1 := by
        simp only [gathered_concat, List.mem_map, mem_insertMember (gathered_ascending ms)]
        constructor
        · rintro ⟨x, rfl | ⟨hx, -⟩, rfl⟩
          · exact .inr rfl
          · exact .inl ⟨x, hx, rfl⟩
        · rintro (⟨x, hx, rfl⟩ | rfl)
          · by_cases he : x.1 = m.1
            · exact ⟨m, .inl rfl, he.symm⟩
            · exact ⟨x, .inr ⟨hx, he⟩, rfl⟩
          · exact ⟨m, .inl rfl, rfl⟩
      rw [hinsert, ih, List.map_append, List.mem_append, List.map_singleton, List.mem_singleton]

/-- Of the members with one name the last one is left. -/
theorem mem_gathered {ms : List (String × Json)} {m : String × Json} :
    m ∈ gathered ms ↔
      ∃ before after, ms = before ++ m :: after ∧ m.1 ∉ after.map (·.1) := by
  induction ms using List.reverseRecOn with
  | nil => simp [gathered]
  | append_singleton ms y ih =>
      rw [gathered_concat, mem_insertMember (gathered_ascending ms), ih]
      constructor
      · rintro (rfl | ⟨⟨before, after, rfl, hafter⟩, hne⟩)
        · exact ⟨ms, [], rfl, List.not_mem_nil⟩
        · refine ⟨before, after ++ [y], by simp, ?_⟩
          rw [List.map_append, List.mem_append, not_or, List.map_singleton, List.mem_singleton]
          exact ⟨hafter, hne⟩
      · rintro ⟨before, after, he, hafter⟩
        rcases List.eq_nil_or_concat' after with rfl | ⟨after, z, rfl⟩
        · obtain ⟨-, hy⟩ := List.append_inj' he rfl
          exact .inl (List.singleton_inj.mp hy).symm
        · rw [← List.cons_append, ← List.append_assoc] at he
          obtain ⟨rfl, hy⟩ := List.append_inj' he rfl
          obtain rfl := List.singleton_inj.mp hy
          rw [List.map_append, List.mem_append, not_or, List.map_singleton,
            List.mem_singleton] at hafter
          exact .inr ⟨⟨before, after, rfl, hafter.1⟩, hafter.2⟩

theorem Ascending.nodup_names {ms : List (String × Json)} (h : Ascending ms) :
    (ms.map (·.1)).Nodup :=
  List.pairwise_map.mpr (h.imp String.ne_of_lt)

/-- No member is lost when the names differ. -/
theorem gathered_perm {ms : List (String × Json)} (h : (ms.map (·.1)).Nodup) :
    (gathered ms).Perm ms := by
  have hkept := (gathered_ascending ms).nodup_names
  refine (List.perm_ext_iff_of_nodup hkept.of_map h.of_map).mpr fun m => ?_
  rw [mem_gathered]
  constructor
  · rintro ⟨before, after, rfl, -⟩
    simp
  · intro hm
    obtain ⟨before, after, rfl⟩ := List.append_of_mem hm
    rw [List.map_append, List.map_cons, List.nodup_append, List.nodup_cons] at h
    exact ⟨before, after, rfl, h.2.1.1⟩

/-- There are as many members as were given exactly if their names differ. -/
theorem length_gathered_iff {ms : List (String × Json)} :
    (gathered ms).length = ms.length ↔ (ms.map (·.1)).Nodup := by
  refine ⟨fun h => ?_, fun h => (gathered_perm h).length_eq⟩
  have hsame : ((gathered ms).map (·.1)).Perm (ms.map (·.1)).dedup := by
    refine (List.perm_ext_iff_of_nodup (gathered_ascending ms).nodup_names
      (List.nodup_dedup _)).mpr fun k => ?_
    rw [List.mem_dedup, mem_names_gathered]
  have hlength := hsame.length_eq
  rw [List.length_map, h, ← List.length_map (f := (·.1))] at hlength
  rw [← List.dedup_eq_self]
  exact (List.dedup_sublist _).eq_of_length hlength.symm

end Json

/-! ## Keys -/

namespace Text.Digits

/-- A number behind an underline is read back from the end of the text. -/
theorem underlined_inj {as bs : List Char} {m n : Nat}
    (h : as ++ '_' :: ofNat m = bs ++ '_' :: ofNat n) : as = bs ∧ m = n := by
  -- From the end, the digits stop at the last underline, whatever stands before it.
  have hspan : ∀ (cs : List Char) (k : Nat),
      spanDigits (cs ++ '_' :: ofNat k).reverse = ((ofNat k).reverse, '_' :: cs.reverse) := by
    intro cs k
    rw [List.reverse_append, List.reverse_cons, List.append_assoc, List.singleton_append]
    refine Sql.Parser.spanDigits_append (List.all_reverse.trans (ofNat_all k)) fun c r he => ?_
    rw [← (List.cons.inj he).1]
    decide
  have hboth := hspan as m
  rw [h, hspan bs n, Prod.mk.injEq, List.reverse_inj, List.cons_inj_right,
    List.reverse_inj] at hboth
  refine ⟨hboth.2.symm, ?_⟩
  rw [← value_ofNat m, ← hboth.1, value_ofNat]

end Text.Digits

/-- The key of the column at position `i` when its name occurred before. -/
def suffixed (name : String) (i : Nat) : String := name ++ "_" ++ Digits.text (i + 1)

theorem toList_suffixed (name : String) (i : Nat) :
    (suffixed name i).toList = name.toList ++ '_' :: Digits.ofNat (i + 1) := by
  simp [suffixed, Digits.text]

theorem suffixed_inj {a b : String} {i j : Nat} (h : suffixed a i = suffixed b j) : i = j := by
  have hchars := congrArg String.toList h
  rw [toList_suffixed, toList_suffixed] at hchars
  exact Nat.succ.inj (Digits.underlined_inj hchars).2

theorem suffixed_ne (name : String) (i : Nat) : suffixed name i ≠ name := by
  intro h
  have hlength := congrArg List.length (congrArg String.toList h)
  rw [toList_suffixed, List.length_append, List.length_cons] at hlength
  omega

theorem objectKeysFrom_getElem? (seen : List String) (k : Nat) (columns : List String) (i : Nat) :
    (objectKeysFrom seen k columns)[i]? = columns[i]?.map fun name =>
      if name ∈ seen ∨ name ∈ columns.take i then suffixed name (k + i) else name := by
  induction columns generalizing seen k i with
  | nil => simp [objectKeysFrom]
  | cons column columns ih =>
      cases i with
      | zero => simp [objectKeysFrom, suffixed]
      | succ i =>
          rw [objectKeysFrom, List.getElem?_cons_succ, List.getElem?_cons_succ, ih]
          congr 1
          funext name
          simp only [List.mem_cons, List.take_succ_cons, or_left_comm, or_assoc]
          rw [Nat.add_right_comm, Nat.add_assoc]

/-- The key of a column is its name where this occurs first. -/
theorem objectKeys_getElem? (columns : List String) (i : Nat) :
    (objectKeys columns)[i]? = columns[i]?.map fun name =>
      if name ∈ columns.take i then suffixed name i else name := by
  simp [objectKeys, objectKeysFrom_getElem?]

theorem objectKeys_length (columns : List String) :
    (objectKeys columns).length = columns.length := by
  have hfrom : ∀ (columns seen : List String) (k : Nat),
      (objectKeysFrom seen k columns).length = columns.length := by
    intro columns
    induction columns with
    | nil => exact fun _ _ => rfl
    | cons column columns ih =>
        intro seen k
        rw [objectKeysFrom, List.length_cons, List.length_cons, ih]
  exact hfrom columns [] 0

/-- No key with a position is the name of a column. -/
def Unmistaken (columns : List String) : Prop :=
  ∀ c ∈ columns.zipIdx, c.1 ∈ columns.take c.2 → suffixed c.1 c.2 ∉ columns

instance (columns : List String) : Decidable (Unmistaken columns) :=
  inferInstanceAs (Decidable (∀ c ∈ columns.zipIdx, _))

theorem Unmistaken.suffixed_not_mem {columns : List String} (h : Unmistaken columns) {i : Nat}
    {name : String} (hi : columns[i]? = some name) (hm : name ∈ columns.take i) :
    suffixed name i ∉ columns :=
  h (name, i) (List.mem_zipIdx_iff_getElem?.mpr hi) hm

/-- Where a key is found, the column is known by its name or by its position. -/
theorem objectKeys_eq_some {columns : List String} {i : Nat} {key : String}
    (h : (objectKeys columns)[i]? = some key) :
    (key ∉ columns.take i ∧ columns[i]? = some key) ∨
      ∃ name, columns[i]? = some name ∧ name ∈ columns.take i ∧ key = suffixed name i := by
  rw [objectKeys_getElem?, Option.map_eq_some_iff] at h
  obtain ⟨name, hname, rfl⟩ := h
  split
  · rename_i hm
    exact .inr ⟨name, hname, hm, rfl⟩
  · rename_i hm
    exact .inl ⟨hm, hname⟩

/-- Every name of a column is the key of the column where it occurs first. -/
theorem exists_objectKey {columns : List String} {name : String} (h : name ∈ columns) :
    ∃ i : Nat, (objectKeys columns)[i]? = some name ∧ columns[i]? = some name := by
  obtain ⟨before, after, rfl, hbefore⟩ := List.eq_append_cons_of_mem h
  refine ⟨before.length, ?_, by simp⟩
  rw [objectKeys_getElem?]
  simp [hbefore]

theorem Unmistaken.objectKeys_ne {columns : List String} (h : Unmistaken columns) {i j : Nat}
    (hij : i < j) {key : String} (hi : (objectKeys columns)[i]? = some key) :
    (objectKeys columns)[j]? ≠ some key := by
  intro hj
  rcases objectKeys_eq_some hi with ⟨-, hname⟩ | ⟨name, hname, hm, rfl⟩
  · rcases objectKeys_eq_some hj with ⟨hm', -⟩ | ⟨name', hname', hm', rfl⟩
    · have htake : (columns.take j)[i]? = some key := by
        rw [List.getElem?_take_of_lt hij, hname]
      exact hm' (List.mem_of_getElem? htake)
    · exact h.suffixed_not_mem hname' hm' (List.mem_of_getElem? hname)
  · rcases objectKeys_eq_some hj with ⟨-, hname'⟩ | ⟨name', hname', hm', he⟩
    · exact h.suffixed_not_mem hname hm (List.mem_of_getElem? hname')
    · exact absurd (suffixed_inj he) (Nat.ne_of_lt hij)

/-- The keys differ exactly if no key with a position is the name of a column. -/
theorem objectKeys_nodup_iff {columns : List String} :
    (objectKeys columns).Nodup ↔ Unmistaken columns := by
  rw [List.nodup_iff_getElem?_ne_getElem?]
  constructor
  · intro h c hc hm hmistaken
    obtain ⟨name, i⟩ := c
    have hi : columns[i]? = some name := List.mem_zipIdx_iff_getElem?.mp hc
    have hkey : (objectKeys columns)[i]? = some (suffixed name i) := by
      rw [objectKeys_getElem?, hi, Option.map_some, if_pos hm]
    obtain ⟨j, hkey', hj⟩ := exists_objectKey hmistaken
    rcases Nat.lt_trichotomy i j with hij | rfl | hij
    · exact h i j hij (List.getElem?_eq_some_iff.mp hkey').1 (hkey.trans hkey'.symm)
    · rw [hi, Option.some_inj] at hj
      exact suffixed_ne name i hj.symm
    · exact h j i hij (List.getElem?_eq_some_iff.mp hkey).1 (hkey'.trans hkey.symm)
  · intro h i j hij hj he
    rw [List.getElem?_eq_getElem hj] at he
    exact h.objectKeys_ne hij he (List.getElem?_eq_getElem hj)

/-! ## Records -/

/-- A member of an object is one of the given with no other of its name behind it. -/
theorem Json.mem_gathered_zip {keys : List String} {values : List Json}
    (h : values.length = keys.length) {key : String} {value : Json} :
    (key, value) ∈ gathered (keys.zip values) ↔
      ∃ i : Nat, keys[i]? = some key ∧ values[i]? = some value ∧ ∀ j > i, keys[j]? ≠ some key := by
  have hnames : (keys.zip values).map (·.1) = keys := List.map_fst_zip h.ge
  rw [mem_gathered]
  constructor
  · rintro ⟨before, after, he, hafter⟩
    have hkeys : keys = before.map (·.1) ++ key :: after.map (·.1) := by
      rw [← hnames, he, List.map_append, List.map_cons]
    have hat : (keys.zip values)[before.length]? = some (key, value) := by simp [he]
    obtain ⟨hkey, hvalue⟩ := List.getElem?_zip_eq_some.mp hat
    refine ⟨before.length, hkey, hvalue, fun j hj hlater => hafter ?_⟩
    rw [hkeys, List.getElem?_append_right (by simpa using hj.le), List.length_map] at hlater
    obtain ⟨d, hd⟩ := Nat.exists_eq_add_of_lt hj
    rw [hd, show before.length + d + 1 - before.length = d + 1 by omega,
      List.getElem?_cons_succ] at hlater
    exact List.mem_of_getElem? hlater
  · rintro ⟨i, hkey, hvalue, hlast⟩
    have hat : (keys.zip values)[i]? = some (key, value) :=
      List.getElem?_zip_eq_some.mpr ⟨hkey, hvalue⟩
    obtain ⟨hi, hget⟩ := List.getElem?_eq_some_iff.mp hat
    refine ⟨(keys.zip values).take i, (keys.zip values).drop (i + 1), ?_, fun hlater => ?_⟩
    · rw [← hget, List.getElem_cons_drop, List.take_append_drop]
    · rw [List.map_drop, hnames] at hlater
      obtain ⟨d, hd⟩ := List.mem_iff_getElem?.mp hlater
      rw [List.getElem?_drop] at hd
      exact hlast _ (by omega) hd

namespace Shape

/-- A record has its members in the order of their names. The value of a column is in it exactly
if no column behind it has the same key, and so all values are exactly if no key with a position is
the name of a column. -/
theorem one_member_each {columns : List String} {row : Row} (h : row.length = columns.length) :
    ∃ members, Shape.object.record columns row = .object members ∧ Json.Ascending members ∧
      (∀ key value, (key, value) ∈ members ↔ ∃ i : Nat, (objectKeys columns)[i]? = some key ∧
        (row.map Value.toJson)[i]? = some value ∧ ∀ j > i, (objectKeys columns)[j]? ≠ some key) ∧
      (members.length = columns.length ↔ Unmistaken columns) ∧
      ((objectKeys columns).Nodup ↔ Unmistaken columns) := by
  have hvalues : (row.map Value.toJson).length = (objectKeys columns).length := by
    rw [List.length_map, objectKeys_length, h]
  have hzip : ((objectKeys columns).zip (row.map Value.toJson)).length = columns.length := by
    rw [List.length_zip, hvalues, Nat.min_self, objectKeys_length]
  refine ⟨_, Json.ofMembers_eq _, Json.gathered_ascending _,
    fun _ _ => Json.mem_gathered_zip hvalues, ?_, objectKeys_nodup_iff⟩
  rw [← hzip, Json.length_gathered_iff, List.map_fst_zip hvalues.ge, objectKeys_nodup_iff]

/-- A name three times, and a name that ends like a position. -/
theorem one_member_each_repeated :
    Unmistaken ["id", "id", "ok_7", "id"] ∧
      ∃ members, Shape.object.record ["id", "id", "ok_7", "id"]
          [.integer 1, .integer 2, .null, .integer 4] = .object members ∧
        members.length = 4 ∧ ("id_2", Value.toJson (.integer 2)) ∈ members := by
  have hkeys : Unmistaken ["id", "id", "ok_7", "id"] := by decide +kernel
  have hwidth : [Value.integer 1, .integer 2, .null, .integer 4].length =
      ["id", "id", "ok_7", "id"].length := rfl
  obtain ⟨members, hrecord, -, hmem, hlength, -⟩ := one_member_each hwidth
  refine ⟨hkeys, members, hrecord, hlength.mpr hkeys, (hmem _ _).mpr ⟨1, ?_, rfl, fun j hj => ?_⟩⟩
  · decide +kernel
  · exact hkeys.objectKeys_ne hj (by decide +kernel)

/-- The second `id` gets the key of the third column, and its value is lost. -/
theorem member_overwritten :
    objectKeys ["id", "id", "id_2"] = ["id", "id_2", "id_2"] ∧
      ((writeRows Sink.write .object ["id", "id", "id_2"]
        [[.integer 1, .integer 2, .integer 3]]).run (Sink.empty none)).2.lines =
          ["\x7b\"id\":1,\"id_2\":3\x7d"] := by
  decide +kernel

end Shape

end Rowtime
