import Rowtime.Follow.Marks

/-!
# Names without regard to case

Names agree when they differ at most in the case of ASCII letters; the catalog
folds all case forms. Names that agree have one key, and only a name that agrees
with that of the one-row table has its key, so that a table under that name is
never one of the tables that a query is said to read.
-/
namespace Rowtime

open Text

namespace Text

/-- The characters of a name with ASCII letters in lower case. -/
def folded (s : String) : List Char := s.toList.map asciiLower

theorem sameName_iff {a b : String} : sameName a b = true ↔ folded a = folded b := by
  simp [sameName, folded]

@[simp] theorem sameName_refl (a : String) : sameName a a = true := sameName_iff.mpr rfl

theorem sameName_symm {a b : String} (h : sameName a b = true) : sameName b a = true :=
  sameName_iff.mpr (sameName_iff.mp h).symm

theorem sameName_trans {a b c : String} (h : sameName a b = true) (k : sameName b c = true) :
    sameName a c = true :=
  sameName_iff.mpr ((sameName_iff.mp h).trans (sameName_iff.mp k))

theorem sameName_comm (a b : String) : sameName a b = sameName b a := by
  rw [Bool.eq_iff_iff]
  exact ⟨sameName_symm, sameName_symm⟩

theorem sameName_congr {a b : String} (h : sameName a b = true) (c : String) :
    sameName a c = sameName b c := by
  rw [Bool.eq_iff_iff]
  exact ⟨sameName_trans (sameName_symm h), sameName_trans h⟩

/-! ## Case folding -/

theorem toNat_ofNat {n : Nat} (h : n.isValidChar) : (Char.ofNat n).toNat = n := by
  unfold Char.ofNat
  rw [dif_pos h]
  rfl

theorem toNat_ofNat_of_not {n : Nat} (h : ¬n.isValidChar) : (Char.ofNat n).toNat = 0 := by
  unfold Char.ofNat
  rw [dif_neg h]
  rfl

theorem asciiLower_of_capital {c : Char} (h : 'A' ≤ c ∧ c ≤ 'Z') :
    (asciiLower c).toNat = c.toNat + 32 := by
  have hu : c.toNat ≤ 90 := h.2
  simp only [asciiLower, h.1, h.2, decide_true, Bool.and_true, if_true]
  exact toNat_ofNat (Or.inl (by omega))

theorem asciiLower_of_not_capital {c : Char} (h : ¬('A' ≤ c ∧ c ≤ 'Z')) : asciiLower c = c := by
  simp only [asciiLower, Bool.and_eq_true, decide_eq_true_eq, if_neg h]

theorem capital_bounds {c : Char} (h : 'A' ≤ c ∧ c ≤ 'Z') : 65 ≤ c.toNat ∧ c.toNat ≤ 90 := h

theorem asciiLower_idem (c : Char) : asciiLower (asciiLower c) = asciiLower c := by
  by_cases h : 'A' ≤ c ∧ c ≤ 'Z'
  · refine asciiLower_of_not_capital fun k => ?_
    have hb := capital_bounds h
    have kb := capital_bounds k
    rw [asciiLower_of_capital h] at kb
    omega
  · rw [asciiLower_of_not_capital h, asciiLower_of_not_capital h]

theorem asciiUpper_of_small {c : Char} (h : 'a' ≤ c ∧ c ≤ 'z') :
    (asciiUpper c).toNat + 32 = c.toNat := by
  have hl : 97 ≤ c.toNat := h.1
  have hu : c.toNat ≤ 122 := h.2
  simp only [asciiUpper, h.1, h.2, decide_true, Bool.and_true, if_true]
  rw [toNat_ofNat (Or.inl (by omega))]
  omega

theorem asciiUpper_of_not_small {c : Char} (h : ¬('a' ≤ c ∧ c ≤ 'z')) : asciiUpper c = c := by
  simp only [asciiUpper, Bool.and_eq_true, decide_eq_true_eq, if_neg h]

theorem small_bounds {c : Char} (h : 'a' ≤ c ∧ c ≤ 'z') : 97 ≤ c.toNat ∧ c.toNat ≤ 122 := h

theorem asciiUpper_idem (c : Char) : asciiUpper (asciiUpper c) = asciiUpper c := by
  by_cases h : 'a' ≤ c ∧ c ≤ 'z'
  · refine asciiUpper_of_not_small fun hu => ?_
    have h1 := asciiUpper_of_small h
    have h2 := small_bounds h
    have h3 := small_bounds hu
    omega
  · rw [asciiUpper_of_not_small h, asciiUpper_of_not_small h]

theorem asciiLower_asciiUpper (c : Char) : asciiLower (asciiUpper c) = asciiLower c := by
  by_cases h : 'a' ≤ c ∧ c ≤ 'z'
  · have h1 := asciiUpper_of_small h
    have h2 := small_bounds h
    have hcap : 'A' ≤ asciiUpper c ∧ asciiUpper c ≤ 'Z' := by
      constructor
      · change 65 ≤ (asciiUpper c).toNat
        omega
      · change (asciiUpper c).toNat ≤ 90
        omega
    have hnot : ¬('A' ≤ c ∧ c ≤ 'Z') := fun hc => by
      have := capital_bounds hc
      omega
    rw [asciiLower_of_not_capital hnot]
    apply Char.toNat_inj.mp
    rw [asciiLower_of_capital hcap]
    exact h1
  · rw [asciiUpper_of_not_small h]

theorem asciiUpperText_idem (s : String) : asciiUpperText (asciiUpperText s) = asciiUpperText s := by
  simp only [asciiUpperText, String.toList_ofList, List.map_map]
  congr 2
  funext c
  exact asciiUpper_idem c

theorem sameName_asciiUpperText (s : String) : sameName (asciiUpperText s) s = true := by
  rw [sameName_iff, folded, folded, asciiUpperText, String.toList_ofList, List.map_map]
  congr 1
  funext c
  exact asciiLower_asciiUpper c

theorem inRanges_asciiLower {table : List (Nat × Nat)}
    (h : ∀ i < 26, inRanges table (65 + i) = inRanges table (97 + i)) (c : Char) :
    inRanges table (asciiLower c).toNat = inRanges table c.toNat := by
  by_cases hc : 'A' ≤ c ∧ c ≤ 'Z'
  · have hb := capital_bounds hc
    have hi := h (c.toNat - 65) (by omega)
    rw [asciiLower_of_capital hc, show c.toNat + 32 = 97 + (c.toNat - 65) by omega, ← hi,
      show 65 + (c.toNat - 65) = c.toNat by omega]
  · rw [asciiLower_of_not_capital hc]

theorem inRanges_eq_false {table : List (Nat × Nat)} {n : Nat}
    (h : ∀ r ∈ table, r.2 < n ∨ n < r.1) : inRanges table n = false := by
  rw [inRanges, List.any_eq_false]
  intro r hr
  rw [Bool.and_eq_true, decide_eq_true_eq, decide_eq_true_eq]
  have := h r hr
  omega

set_option maxRecDepth 8000 in
/-- No range of ignorable characters has an ASCII letter in it. -/
theorem ignorable_ranges :
    ∀ r ∈ CaseTable.ignorable, r.2 < 65 ∨ 90 < r.1 ∧ r.2 < 97 ∨ 122 < r.1 := by
  decide

theorem ignorable_asciiLower (c : Char) :
    inRanges CaseTable.ignorable (asciiLower c).toNat = inRanges CaseTable.ignorable c.toNat := by
  refine inRanges_asciiLower (fun i hi => ?_) c
  have hcapital : inRanges CaseTable.ignorable (65 + i) = false :=
    inRanges_eq_false fun r hr => by have := ignorable_ranges r hr; omega
  have hsmall : inRanges CaseTable.ignorable (97 + i) = false :=
    inRanges_eq_false fun r hr => by have := ignorable_ranges r hr; omega
  rw [hcapital, hsmall]

theorem cased_asciiLower (c : Char) :
    inRanges CaseTable.cased (asciiLower c).toNat = inRanges CaseTable.cased c.toNat :=
  inRanges_asciiLower (by decide) c

theorem startsCased_folded (cs : List Char) : startsCased (cs.map asciiLower) = startsCased cs := by
  induction cs with
  | nil => rfl
  | cons c r ih =>
      simp only [List.map_cons, startsCased, ignorable_asciiLower, cased_asciiLower, ih]

theorem lt_128_asciiLower (c : Char) : (asciiLower c).toNat < 128 ↔ c.toNat < 128 := by
  by_cases h : 'A' ≤ c ∧ c ≤ 'Z'
  · have hb := capital_bounds h
    rw [asciiLower_of_capital h]
    omega
  · rw [asciiLower_of_not_capital h]

theorem lowerChar_asciiLower (c : Char) : lowerChar (asciiLower c) = lowerChar c := by
  by_cases h : 'A' ≤ c ∧ c ≤ 'Z'
  · have hc : c.toNat < 128 := by have := capital_bounds h; omega
    have hl : (asciiLower c).toNat < 128 := (lt_128_asciiLower c).mpr hc
    simp only [lowerChar, if_pos hc, if_pos hl, asciiLower_idem]
  · rw [asciiLower_of_not_capital h]

theorem isSigma_asciiLower (c : Char) : ((asciiLower c).toNat == 0x3a3) = (c.toNat == 0x3a3) := by
  by_cases h : 'A' ≤ c ∧ c ≤ 'Z'
  · have hb := capital_bounds h
    have hl := asciiLower_of_capital h
    rw [Bool.eq_iff_iff, beq_iff_eq, beq_iff_eq]
    omega
  · rw [asciiLower_of_not_capital h]

/-- Folding the case of ASCII letters first changes nothing. -/
theorem lowerFrom_folded (before cs : List Char) :
    lowerFrom (before.map asciiLower) (cs.map asciiLower) = lowerFrom before cs := by
  induction cs generalizing before with
  | nil => rfl
  | cons c r ih =>
      have hr := ih (c :: before)
      rw [List.map_cons] at hr
      simp only [List.map_cons, lowerFrom, hr, isSigma_asciiLower, startsCased_folded,
        lowerChar_asciiLower]

end Text

/-- Names that agree have one key. -/
theorem Catalog.key_of_sameName {a b : String} (h : sameName a b = true) :
    Catalog.key a = Catalog.key b := by
  have hab : a.toList.map asciiLower = b.toList.map asciiLower := sameName_iff.mp h
  have ha := lowerFrom_folded [] a.toList
  have hb := lowerFrom_folded [] b.toList
  unfold Catalog.key lower
  rw [← ha, ← hb, hab]

/-! ## The key of the one-row table -/

namespace Text

set_option maxRecDepth 8000 in
/-- No run of the table ends in an ASCII letter other than `k`. -/
theorem lower_runs :
    ∀ r ∈ CaseTable.lower, (127 : Int) < (r.1 : Int) + r.2.2.2 ∨
      (r.1 = r.2.1 ∧ (r.1 : Int) + r.2.2.2 = 107) := by
  decide

theorem partner_lower {n m : Nat} (h : partner? CaseTable.lower n = some m) : m = 107 ∨ 127 < m := by
  unfold partner? at h
  obtain ⟨r, hr, rfl⟩ := Option.map_eq_some_iff.mp h
  have hin := List.find?_some hr
  simp only [Bool.and_eq_true, decide_eq_true_eq] at hin
  rcases lower_runs r (List.mem_of_find?_eq_some hr) with hb | ⟨he, hk⟩
  · right
    omega
  · left
    omega

/-- The lower-case form of a character outside ASCII holds no letter of the name of the one-row
table. -/
theorem lowerChar_outside {c d : Char} (h : 128 ≤ c.toNat) (hd : d ∈ lowerChar c) :
    d ∉ dualName.toList := by
  have far : ∀ e : Char, e.toNat = 0 ∨ e.toNat = 107 ∨ 127 < e.toNat → e ∉ dualName.toList := by
    intro e he hm
    have hname : dualName.toList = ['d', 'u', 'a', 'l'] := rfl
    rw [hname] at hm
    simp only [List.mem_cons, List.not_mem_nil, or_false] at hm
    rcases hm with rfl | rfl | rfl | rfl <;> simp at he
  have hlt : ¬c.toNat < 128 := by omega
  simp only [lowerChar, if_neg hlt] at hd
  split at hd
  · simp only [List.mem_cons, List.not_mem_nil, or_false] at hd
    rcases hd with rfl | rfl <;> decide
  · split at hd
    · rename_i m hm
      rw [List.mem_singleton] at hd
      subst hd
      by_cases hv : m.isValidChar
      · refine far _ (Or.inr ?_)
        rw [toNat_ofNat hv]
        exact partner_lower hm
      · exact far _ (Or.inl (toNat_ofNat_of_not hv))
    · rw [List.mem_singleton] at hd
      subst hd
      exact far _ (Or.inr (Or.inr (by omega)))

/-- What one character contributes to the lower-case form of a text. -/
theorem lowerFrom_cons (before : List Char) (c : Char) (r : List Char) :
    ∃ small, lowerFrom before (c :: r) = small ++ lowerFrom (c :: before) r ∧
      (small = lowerChar c ∨ small = [Char.ofNat 0x3c2] ∨ small = [Char.ofNat 0x3c3]) := by
  refine ⟨_, rfl, ?_⟩
  split
  · split <;> simp
  · simp

/-- A text whose lower-case form has only letters of the name of the one-row table is in ASCII. -/
theorem lowerFrom_dual (before cs : List Char)
    (h : ∀ d ∈ lowerFrom before cs, d ∈ dualName.toList) :
    lowerFrom before cs = cs.map asciiLower := by
  induction cs generalizing before with
  | nil => rfl
  | cons c r ih =>
      obtain ⟨small, he, hs⟩ := lowerFrom_cons before c r
      rw [he] at h
      have hr := ih (c :: before) fun d hd => h d (List.mem_append_right _ hd)
      have hsmall : ∀ d ∈ small, d ∈ dualName.toList := fun d hd => h d (List.mem_append_left _ hd)
      rw [he, hr, List.map_cons]
      rcases hs with rfl | rfl | rfl
      · by_cases hc : c.toNat < 128
        · simp [lowerChar, if_pos hc]
        · exfalso
          have hne : lowerChar c ≠ [] := by
            simp only [lowerChar, if_neg hc]
            split
            · simp
            · split <;> simp
          obtain ⟨d, hd⟩ := List.exists_mem_of_ne_nil _ hne
          exact lowerChar_outside (by omega) hd (hsmall d hd)
      · exact absurd (hsmall _ (List.mem_singleton_self _)) (by decide)
      · exact absurd (hsmall _ (List.mem_singleton_self _)) (by decide)

end Text

/-- Only a name that agrees with that of the one-row table has its key. -/
theorem sameName_dual_of_key {a b : String} (hb : sameName b dualName = true)
    (h : Catalog.key a = Catalog.key b) : sameName a dualName = true := by
  have hdual : Catalog.key dualName = dualName := by decide
  have ha : lower a = dualName := (h.trans (Catalog.key_of_sameName hb)).trans hdual
  have hl : lowerFrom [] a.toList = dualName.toList := by
    rw [← ha, lower, String.toList_ofList]
  have hmap := lowerFrom_dual [] a.toList fun d hd => by rwa [hl] at hd
  rw [sameName_iff, folded, ← hmap, hl]
  decide

/-! ## Occurrences -/

namespace TableRef

theorem same_iff {a b : TableRef} :
    a.same b = true ↔ folded a.name = folded b.name ∧ a.alias?.map folded = b.alias?.map folded := by
  unfold same
  cases ha : a.alias? <;> cases hb : b.alias? <;> simp [sameName_iff]

@[simp] theorem same_refl (a : TableRef) : a.same a = true := same_iff.mpr ⟨rfl, rfl⟩

theorem same_symm {a b : TableRef} (h : a.same b = true) : b.same a = true :=
  same_iff.mpr ⟨(same_iff.mp h).1.symm, (same_iff.mp h).2.symm⟩

theorem same_trans {a b c : TableRef} (h : a.same b = true) (k : b.same c = true) :
    a.same c = true :=
  same_iff.mpr ⟨(same_iff.mp h).1.trans (same_iff.mp k).1, (same_iff.mp h).2.trans (same_iff.mp k).2⟩

theorem same_comm (a b : TableRef) : a.same b = b.same a := by
  rw [Bool.eq_iff_iff]
  exact ⟨same_symm, same_symm⟩

theorem same_congr {a b : TableRef} (h : a.same b = true) (c : TableRef) : a.same c = b.same c := by
  rw [Bool.eq_iff_iff]
  exact ⟨same_trans (same_symm h), same_trans h⟩

theorem same_congr_right {a b : TableRef} (h : a.same b = true) (c : TableRef) :
    c.same a = c.same b := by
  rw [same_comm c a, same_comm c b, same_congr h]

theorem same_name {a b : TableRef} (h : a.same b = true) : sameName a.name b.name = true :=
  sameName_iff.mpr (same_iff.mp h).1

theorem key_of_same {a b : TableRef} (h : a.same b = true) :
    Catalog.key a.name = Catalog.key b.name :=
  Catalog.key_of_sameName (same_name h)

theorem isDual_of_same {a b : TableRef} (h : a.same b = true) : a.isDual = b.isDual :=
  sameName_congr (same_name h) dualName

/-- Equal occurrences qualify their columns alike. -/
theorem sameName_qualifier {a b : TableRef} (h : a.same b = true) :
    sameName a.qualifier b.qualifier = true := by
  obtain ⟨hn, hal⟩ := same_iff.mp h
  unfold qualifier
  cases ha : a.alias? <;> cases hb : b.alias? <;> simp_all [sameName_iff]

theorem isIn_iff {t : TableRef} {ts : List TableRef} :
    t.isIn ts = true ↔ ∃ u ∈ ts, u.same t = true := by
  simp [isIn]

theorem isIn_of_mem {t : TableRef} {ts : List TableRef} (h : t ∈ ts) : t.isIn ts = true :=
  isIn_iff.mpr ⟨t, h, same_refl t⟩

theorem isIn_congr {t u : TableRef} (h : t.same u = true) (ts : List TableRef) :
    t.isIn ts = u.isIn ts := by
  unfold isIn
  congr 1
  funext v
  exact same_congr_right h v

theorem isIn_append (t : TableRef) (ts us : List TableRef) :
    t.isIn (ts ++ us) = (t.isIn ts || t.isIn us) := by
  simp [isIn]

/-- The occurrences that are listed without repetitions are those other than the one-row table. -/
theorem isIn_distinctFrom (t : TableRef) (kept ts : List TableRef) :
    t.isIn (distinctFrom kept ts) = (t.isIn kept || (t.isIn ts && !t.isDual)) := by
  induction ts generalizing kept with
  | nil => simp [distinctFrom, isIn]
  | cons u r ih =>
      have hcons : t.isIn (u :: r) = (u.same t || t.isIn r) := by simp [isIn]
      unfold distinctFrom
      by_cases h : u.same t = true
      · have hd : u.isDual = t.isDual := isDual_of_same h
        have hi : u.isIn kept = t.isIn kept := isIn_congr h kept
        rw [hcons, h]
        split
        · rw [ih]
          cases hk : t.isIn kept <;> cases ht : t.isDual <;> simp_all
        · rw [ih, isIn_append]
          have hself : t.isIn [u] = true := by simp [isIn, h]
          cases hk : t.isIn kept <;> cases ht : t.isDual <;> simp_all
      · rw [hcons, Bool.not_eq_true _ |>.mp h, Bool.false_or]
        split
        · rw [ih]
        · rw [ih, isIn_append]
          have hself : t.isIn [u] = false := by simpa [isIn] using h
          rw [hself, Bool.or_false]

theorem isIn_distinct (t : TableRef) (ts : List TableRef) :
    t.isIn (distinct ts) = (t.isIn ts && !t.isDual) := by
  rw [distinct, isIn_distinctFrom]
  simp [isIn]

theorem distinctFrom_subset {kept ts : List TableRef} {t : TableRef}
    (h : t ∈ distinctFrom kept ts) : t ∈ kept ∨ t ∈ ts := by
  induction ts generalizing kept with
  | nil => exact Or.inl h
  | cons u r ih =>
      unfold distinctFrom at h
      split at h
      · rcases ih h with hk | hr
        · exact Or.inl hk
        · exact Or.inr (by simp [hr])
      · rcases ih h with hk | hr
        · rcases List.mem_append.mp hk with hk | hk
          · exact Or.inl hk
          · rw [List.mem_singleton] at hk
            exact Or.inr (by simp [hk])
        · exact Or.inr (by simp [hr])

/-- No occurrence equals an earlier one. -/
def Apart (ts : List TableRef) : Prop := ts.Pairwise fun a b => a.same b = false

theorem apart_distinctFrom {kept : List TableRef} (h : Apart kept) (ts : List TableRef) :
    Apart (distinctFrom kept ts) := by
  induction ts generalizing kept with
  | nil => exact h
  | cons t r ih =>
      unfold distinctFrom
      split
      · exact ih h
      · rename_i hn
        refine ih (List.pairwise_append.mpr ⟨h, List.pairwise_singleton _ t, ?_⟩)
        intro u hu v hv
        rw [List.mem_singleton] at hv
        subst hv
        simp only [Bool.or_eq_true, not_or, Bool.not_eq_true] at hn
        cases hs : u.same v with
        | false => rfl
        | true => exact absurd (isIn_iff.mpr ⟨u, hu, hs⟩) (by simp [hn.2])

theorem apart_distinct (ts : List TableRef) : Apart (distinct ts) := apart_distinctFrom .nil ts

theorem isDual_of_mem_distinct {t : TableRef} {ts : List TableRef} (h : t ∈ distinct ts) :
    t.isDual = false := by
  have hin := isIn_of_mem h
  rw [isIn_distinct, Bool.and_eq_true, Bool.not_eq_true'] at hin
  exact hin.2

theorem mem_of_mem_distinct {t : TableRef} {ts : List TableRef} (h : t ∈ distinct ts) : t ∈ ts :=
  (distinctFrom_subset h).resolve_left List.not_mem_nil

end TableRef

end Rowtime
