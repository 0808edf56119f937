import Rowtime.Proofs.Legible

/-!
# What names weigh in a text

The weight of a text counts its double quotes, and two for each reserved word that stands
as a name: behind a point or behind AS, where it need not be in quotes but is written in
them. Whatever is put behind a token of its own, or taken away in front of one, adds no
such name. So weights can be added up along a text, and whoever reads the text can be
asked for what became of its weight.
-/
namespace Rowtime.Sql

open Text Rowtime.Sql.Parser

/-! ## Weights -/

/-- Two if a reserved word stands at the front, for the quotes it is written in as a name. -/
def frontWeight (s : List Char) : Nat :=
  if isReserved (String.ofList (s.takeWhile isIdentChar)) then 2 else 0

/-- What the name behind AS weighs at the front of a text. The digits of a number may run into
AS. -/
def aliasWeight (s : List Char) : Nat :=
  match dropWord? ['A', 'S'] (s.dropWhile Digits.isDigit) with
  | some r => if identFollows r then 0 else frontWeight (skip r)
  | none => 0

/-- The double quotes of a text and two for each reserved word that is a name. -/
def weight : List Char → Nat
  | [] => 0
  | c :: s =>
    (if c == '"' then 1 else 0) + (if c == '.' then frontWeight s else 0) +
      (if isIdentChar c then 0 else aliasWeight s) + weight s

/-- The weight of a text in which a token begins. -/
def weightBehind (s : List Char) : Nat := aliasWeight s + weight s

/-! ## At the front -/

theorem takeWhile_of_ends {s : List Char} (h : identFollows s = false) :
    s.takeWhile isIdentChar = [] := by
  cases s with
  | nil => rfl
  | cons c s => rw [List.takeWhile_cons, if_neg (by simpa [identFollows] using h)]

theorem frontWeight_of_ends {s : List Char} (h : identFollows s = false) : frontWeight s = 0 := by
  rw [frontWeight, takeWhile_of_ends h]
  rfl

/-- No name with AS begins with another character than its first one. -/
theorem aliasWeight_of_head {c : Char} {s : List Char} (hd : Digits.isDigit c = false)
    (h : asciiLower c ≠ 'a') : aliasWeight (c :: s) = 0 := by
  have hdrop : (c :: s).dropWhile Digits.isDigit = c :: s := by
    rw [List.dropWhile_cons, if_neg (by simp [hd])]
  have hne : (asciiLower 'A' == asciiLower c) = false := by
    rw [beq_eq_false_iff_ne]
    exact fun he => h he.symm
  rw [aliasWeight, hdrop, dropWord?, hne]
  rfl

theorem aliasWeight_of_ends {s : List Char} (h : identFollows s = false) : aliasWeight s = 0 := by
  cases s with
  | nil => rfl
  | cons c s =>
      have hc : isIdentChar c = false := h
      refine aliasWeight_of_head ?_ fun ha => ?_
      · cases hd : Digits.isDigit c with
        | false => rfl
        | true =>
            rw [(isDigit_spec hd).1] at hc
            cases hc
      · rw [← isIdentChar_asciiLower, ha] at hc
        revert hc
        decide

theorem weightBehind_of_ends {s : List Char} (h : identFollows s = false) :
    weightBehind s = weight s := by
  rw [weightBehind, aliasWeight_of_ends h, Nat.zero_add]

theorem weight_le_behind (s : List Char) : weight s ≤ weightBehind s := Nat.le_add_left _ _

/-! ## One character -/

theorem weight_ident {c : Char} (h : isIdentChar c = true) (s : List Char) :
    weight (c :: s) = weight s := by
  have hq : (c == '"') = false := by
    rw [beq_eq_false_iff_ne]
    rintro rfl
    revert h
    decide
  have hp : (c == '.') = false := by
    rw [beq_eq_false_iff_ne]
    rintro rfl
    revert h
    decide
  simp [weight, h, hq, hp]

theorem weightBehind_le_cons {c : Char} (h : isIdentChar c = false) (s : List Char) :
    weightBehind s ≤ weight (c :: s) := by
  simp only [weight, h, weightBehind, Bool.false_eq_true, if_false]
  omega

/-- A character that is in no name, no quote and no point weighs nothing. -/
theorem weight_other {c : Char} (h : isIdentChar c = false) (hq : c ≠ '"') (hp : c ≠ '.')
    (s : List Char) : weight (c :: s) = weightBehind s := by
  have hq' : (c == '"') = false := beq_eq_false_iff_ne.mpr hq
  have hp' : (c == '.') = false := beq_eq_false_iff_ne.mpr hp
  simp [weight, h, hq', hp', weightBehind]

theorem weight_cons_le (c : Char) (s : List Char) : weight s ≤ weight (c :: s) := by
  rw [weight]
  omega

theorem weight_append_le (x s : List Char) : weight s ≤ weight (x ++ s) := by
  induction x with
  | nil => exact Nat.le_refl _
  | cons c x ih => exact ih.trans (weight_cons_le c _)

theorem weight_word {w : List Char} (h : w.all isIdentChar = true) (s : List Char) :
    weight (w ++ s) = weight s := by
  induction w with
  | nil => rfl
  | cons c w ih =>
      rw [List.all_cons, Bool.and_eq_true] at h
      rw [List.cons_append, weight_ident h.1, ih h.2]

theorem isGap_spec {c : Char} (h : isGap c = true) :
    isIdentChar c = false ∧ c ≠ '"' ∧ c ≠ '.' := by
  simp only [isGap, Bool.or_eq_true, beq_iff_eq] at h
  rcases h with ((rfl | rfl) | rfl) | rfl <;> decide

theorem weightBehind_skip (s : List Char) : weightBehind (skip s) = weightBehind s := by
  induction s with
  | nil => rfl
  | cons c s ih =>
      rw [skip, List.dropWhile_cons]
      split
      · rename_i hc
        obtain ⟨hi, hq, hp⟩ := isGap_spec hc
        rw [ih, weightBehind_of_ends (s := c :: s) hi, weight_other hi hq hp]
      · rfl

theorem weight_digits (s : List Char) : weight (s.dropWhile Digits.isDigit) = weight s := by
  induction s with
  | nil => rfl
  | cons c s ih =>
      rw [List.dropWhile_cons]
      split
      · rename_i hc
        rw [ih, weight_ident (isDigit_spec hc).1]
      · rfl

theorem weightBehind_digits (s : List Char) :
    weightBehind (s.dropWhile Digits.isDigit) = weightBehind s := by
  rw [weightBehind, weightBehind, weight_digits, aliasWeight, aliasWeight,
    List.dropWhile_idempotent]

/-! ## Where texts meet -/

section
variable {c : Char} {p : Char → Bool}

theorem takeWhile_append_stop (h : p c = false) (x s : List Char) :
    (x ++ c :: s).takeWhile p = x.takeWhile p := by
  induction x with
  | nil => simp [h]
  | cons k x ih => simp only [List.cons_append, List.takeWhile_cons, ih]

theorem dropWhile_append_stop (h : p c = false) (x s : List Char) :
    (x ++ c :: s).dropWhile p = x.dropWhile p ++ c :: s := by
  induction x with
  | nil => simp [h]
  | cons k x ih =>
      simp only [List.cons_append, List.dropWhile_cons, ih]
      split <;> rfl

theorem dropWord?_append_stop {w : List Char} (h : ∀ k ∈ w, asciiLower k ≠ asciiLower c)
    (x s : List Char) : dropWord? w (x ++ c :: s) = (dropWord? w x).map (· ++ c :: s) := by
  induction w generalizing x with
  | nil => rfl
  | cons k w ih =>
      rw [List.forall_mem_cons] at h
      cases x with
      | nil => simp [dropWord?, h.1]
      | cons d x =>
          simp only [List.cons_append, dropWord?, ih h.2]
          split <;> rfl

theorem identFollows_append_stop (h : isIdentChar c = false) (x s : List Char) :
    identFollows (x ++ c :: s) = identFollows x := by
  cases x with
  | nil => exact h
  | cons k x => rfl

/-- A character between tokens that is no gap. -/
structure Stops (c : Char) : Prop where
  ident : isIdentChar c = false
  gap : isGap c = false

theorem Stops.lower (h : Stops c) : ∀ k ∈ ['A', 'S'], asciiLower k ≠ asciiLower c := by
  intro k hk he
  have hident : isIdentChar k = true := by
    simp only [List.mem_cons, List.not_mem_nil, or_false] at hk
    rcases hk with rfl | rfl <;> decide
  rw [← isIdentChar_asciiLower, he, isIdentChar_asciiLower, h.ident] at hident
  cases hident

theorem Stops.digit (h : Stops c) : Digits.isDigit c = false := by
  cases hd : Digits.isDigit c with
  | false => rfl
  | true =>
      have hc := h.ident
      rw [(isDigit_spec hd).1] at hc
      cases hc

theorem frontWeight_append (h : isIdentChar c = false) (x s : List Char) :
    frontWeight (x ++ c :: s) = frontWeight x := by
  rw [frontWeight, frontWeight, takeWhile_append_stop h]

theorem aliasWeight_append (h : Stops c) (x s : List Char) :
    aliasWeight (x ++ c :: s) = aliasWeight x := by
  rw [aliasWeight, aliasWeight, dropWhile_append_stop h.digit, dropWord?_append_stop h.lower]
  cases dropWord? ['A', 'S'] (x.dropWhile Digits.isDigit) with
  | none => rfl
  | some r =>
      simp only [Option.map_some, identFollows_append_stop h.ident]
      rw [skip, dropWhile_append_stop h.gap, frontWeight_append h.ident]

/-- Weights add up where a token ends and no gap follows. -/
theorem weight_append (h : Stops c) (x s : List Char) :
    weight (x ++ c :: s) = weight x + weight (c :: s) := by
  induction x with
  | nil => rw [List.nil_append, weight, Nat.zero_add]
  | cons k x ih =>
      simp only [List.cons_append, weight, frontWeight_append h.ident, aliasWeight_append h] at ih ⊢
      omega

theorem weightBehind_append (h : Stops c) (x s : List Char) :
    weightBehind (x ++ c :: s) = weightBehind x + weight (c :: s) := by
  rw [weightBehind, weightBehind, aliasWeight_append h, weight_append h, Nat.add_assoc]

end

/-! ## Texts with something behind them -/

theorem frontWeight_le_append (x : List Char) {s : List Char} (h : identFollows s = false) :
    frontWeight x ≤ frontWeight (x ++ s) := by
  cases s with
  | nil => rw [List.append_nil]
  | cons c s => exact (frontWeight_append h x s).ge

theorem dropWord?_append {w x r : List Char} (h : dropWord? w x = some r) (s : List Char) :
    dropWord? w (x ++ s) = some (r ++ s) := by
  induction w generalizing x with
  | nil =>
      rw [dropWord?, Option.some.injEq] at h
      rw [dropWord?, h]
  | cons k w ih =>
      cases x with
      | nil => cases h
      | cons c x =>
          rw [dropWord?] at h
          rw [List.cons_append, dropWord?]
          split at h
          · rename_i hk
            rw [if_pos hk, ih h]
          · cases h

theorem aliasWeight_le_append (x : List Char) {s : List Char} (h : identFollows s = false) :
    aliasWeight x ≤ aliasWeight (x ++ s) := by
  cases hx : dropWord? ['A', 'S'] (x.dropWhile Digits.isDigit) with
  | none =>
      rw [aliasWeight, hx]
      exact Nat.zero_le _
  | some r =>
      have hne : (x.dropWhile Digits.isDigit).isEmpty = false := by
        cases hd : x.dropWhile Digits.isDigit with
        | nil =>
            rw [hd] at hx
            cases hx
        | cons k y => rfl
      have hdrop : dropWord? ['A', 'S'] ((x ++ s).dropWhile Digits.isDigit) = some (r ++ s) := by
        rw [List.dropWhile_append, hne]
        exact dropWord?_append hx s
      rw [aliasWeight, aliasWeight, hx, hdrop]
      simp only
      split
      · exact Nat.zero_le _
      · rename_i hr
        have hends : identFollows (r ++ s) = false := by
          cases r with
          | nil => exact h
          | cons k r => exact Bool.eq_false_iff.mpr hr
        have hskip : skip (r ++ s) = if (skip r).isEmpty then skip s else skip r ++ s :=
          List.dropWhile_append
        rw [hends, if_neg Bool.false_ne_true, hskip]
        split
        · rename_i hempty
          rw [List.isEmpty_iff.mp hempty]
          exact Nat.zero_le _
        · exact frontWeight_le_append _ h

/-- A text weighs no less with something behind its last token. -/
theorem weight_le_append (x : List Char) {s : List Char} (h : identFollows s = false) :
    weight x ≤ weight (x ++ s) := by
  induction x with
  | nil => exact Nat.zero_le _
  | cons c x ih =>
      rw [List.cons_append, weight, weight]
      refine Nat.add_le_add (Nat.add_le_add (Nat.add_le_add (Nat.le_refl _) ?_) ?_) ih
      · split
        · exact frontWeight_le_append x h
        · exact Nat.le_refl 0
      · split
        · exact Nat.le_refl 0
        · exact aliasWeight_le_append x h

theorem weightBehind_le_append (x : List Char) {s : List Char} (h : identFollows s = false) :
    weightBehind x ≤ weightBehind (x ++ s) :=
  Nat.add_le_add (aliasWeight_le_append x h) (weight_le_append x h)

theorem weightBehind_trimRight (p : Char → Bool) (h : ∀ c, p c = true → isIdentChar c = false)
    (s : List Char) : weightBehind (trimRight p s) ≤ weightBehind s := by
  obtain ⟨t, hs, ht⟩ : ∃ t, s = trimRight p s ++ t ∧ identFollows t = false := by
    induction s with
    | nil => exact ⟨[], rfl, rfl⟩
    | cons c s ih =>
        obtain ⟨t, hs, ht⟩ := ih
        rw [trimRight]
        split
        · rename_i hnil
          split
          · rename_i hc
            exact ⟨c :: s, rfl, h c hc⟩
          · refine ⟨t, ?_, ht⟩
            rw [hnil] at hs
            rw [hs]
            rfl
        · rename_i k y hk
          refine ⟨t, ?_, ht⟩
          rw [hk] at hs
          rw [List.cons_append, ← hs]
  conv_rhs => rw [hs]
  exact weightBehind_le_append _ ht

/-! ## Texts in upper case -/

theorem isReserved_congr {a b : String} (h : sameName a b = true) :
    isReserved a = isReserved b := by
  unfold isReserved
  congr 1
  funext k
  rw [sameName_comm k a, sameName_comm k b, sameName_congr h]

theorem isIdentChar_asciiUpper (c : Char) : isIdentChar (asciiUpper c) = isIdentChar c := by
  rw [← isIdentChar_asciiLower, asciiLower_asciiUpper, isIdentChar_asciiLower]

theorem asciiUpper_capital {c : Char} (h : 'a' ≤ c ∧ c ≤ 'z') :
    'A' ≤ asciiUpper c ∧ asciiUpper c ≤ 'Z' := by
  have hupper := asciiUpper_of_small h
  have hbounds := small_bounds h
  constructor
  · change 65 ≤ (asciiUpper c).toNat
    omega
  · change (asciiUpper c).toNat ≤ 90
    omega

theorem isIdentStart_asciiUpper {c : Char} (h : isIdentStart c = true) :
    isIdentStart (asciiUpper c) = true := by
  by_cases hc : 'a' ≤ c ∧ c ≤ 'z'
  · obtain ⟨hlow, hhigh⟩ := asciiUpper_capital hc
    simp [isIdentStart, hlow, hhigh]
  · rwa [asciiUpper_of_not_small hc]

/-- What holds of no letter is not changed by upper case. -/
theorem asciiUpper_immaterial {p : Char → Bool} (h : ∀ c, isIdentStart c = true → p c = false)
    (c : Char) : p (asciiUpper c) = p c := by
  by_cases hc : 'a' ≤ c ∧ c ≤ 'z'
  · have hsmall : isIdentStart c = true := by simp [isIdentStart, hc.1, hc.2]
    rw [h c hsmall, h _ (isIdentStart_asciiUpper hsmall)]
  · rw [asciiUpper_of_not_small hc]

theorem dropWord?_upper (w x : List Char) :
    dropWord? w (x.map asciiUpper) = (dropWord? w x).map (List.map asciiUpper) := by
  induction w generalizing x with
  | nil => rfl
  | cons k w ih =>
      cases x with
      | nil => rfl
      | cons c x =>
          rw [List.map_cons, dropWord?, dropWord?, asciiLower_asciiUpper, ih]
          split <;> rfl

theorem dropWhile_upper {p : Char → Bool} (h : ∀ c, isIdentStart c = true → p c = false)
    (x : List Char) : (x.map asciiUpper).dropWhile p = (x.dropWhile p).map asciiUpper := by
  have hp : p ∘ asciiUpper = p := funext (asciiUpper_immaterial h)
  rw [List.dropWhile_map, hp]

theorem identFollows_upper (x : List Char) : identFollows (x.map asciiUpper) = identFollows x := by
  cases x with
  | nil => rfl
  | cons c x => exact isIdentChar_asciiUpper c

theorem frontWeight_upper (x : List Char) : frontWeight (x.map asciiUpper) = frontWeight x := by
  have hp : isIdentChar ∘ asciiUpper = isIdentChar := funext isIdentChar_asciiUpper
  have hword := isReserved_congr
    (sameName_asciiUpperText (String.ofList (x.takeWhile isIdentChar)))
  rw [asciiUpperText, String.toList_ofList] at hword
  rw [frontWeight, frontWeight, List.takeWhile_map, hp, hword]

theorem aliasWeight_upper (x : List Char) : aliasWeight (x.map asciiUpper) = aliasWeight x := by
  have hgap : ∀ c, isIdentStart c = true → isGap c = false := fun c hc => (isIdentStart_spec hc).2.1
  have hdigit : ∀ c, isIdentStart c = true → Digits.isDigit c = false :=
    fun c hc => (isIdentStart_spec hc).2.2.2.2.2.2.2
  rw [aliasWeight, aliasWeight, dropWhile_upper hdigit, dropWord?_upper]
  cases dropWord? ['A', 'S'] (x.dropWhile Digits.isDigit) with
  | none => rfl
  | some r =>
      simp only [Option.map_some, identFollows_upper]
      rw [skip, dropWhile_upper hgap, frontWeight_upper]

/-- Upper case does not change what a text weighs. -/
theorem weightBehind_upper (x : List Char) : weightBehind (x.map asciiUpper) = weightBehind x := by
  have hquote : ∀ c, (asciiUpper c == '"') = (c == '"') := asciiUpper_immaterial fun c hc =>
    beq_eq_false_iff_ne.mpr (isIdentStart_spec hc).2.2.1
  have hstart : ∀ c, isIdentStart c = true → (c == '.') = false := by
    intro c hc
    rw [beq_eq_false_iff_ne]
    rintro rfl
    revert hc
    decide
  have hpoint : ∀ c, (asciiUpper c == '.') = (c == '.') := asciiUpper_immaterial hstart
  have hweight : weight (x.map asciiUpper) = weight x := by
    induction x with
    | nil => rfl
    | cons c x ih =>
        simp only [List.map_cons, weight, hquote, hpoint, isIdentChar_asciiUpper, frontWeight_upper,
          aliasWeight_upper, ih]
  rw [weightBehind, weightBehind, hweight, aliasWeight_upper]

/-! ## Texts between quotes -/

section
variable {q : Char} {p : Char → Bool}

theorem takeWhile_encode (h : p q = false) (x : List Char) :
    (Doubled.encode q x).takeWhile p = x.takeWhile p := by
  induction x with
  | nil => rfl
  | cons c x ih =>
      rw [Doubled.encode]
      split
      · rename_i hc
        simp [eq_of_beq hc, h]
      · rw [List.takeWhile_cons, List.takeWhile_cons, ih]

theorem dropWhile_encode (h : p q = false) (x : List Char) :
    (Doubled.encode q x).dropWhile p = Doubled.encode q (x.dropWhile p) := by
  induction x with
  | nil => rfl
  | cons c x ih =>
      rw [List.dropWhile_cons]
      split
      · rename_i hp
        have hc : (c == q) = false := by
          rw [beq_eq_false_iff_ne]
          rintro rfl
          rw [h] at hp
          cases hp
        rw [Doubled.encode, hc, if_neg Bool.false_ne_true, List.dropWhile_cons, if_pos hp, ih]
      · rename_i hp
        rw [Doubled.encode]
        split
        · rw [List.dropWhile_cons, if_neg (by simp [h])]
        · rw [List.dropWhile_cons, if_neg hp]

theorem dropWord?_encode {w : List Char} (h : ∀ k ∈ w, asciiLower k ≠ asciiLower q)
    (x : List Char) :
    dropWord? w (Doubled.encode q x) = (dropWord? w x).map (Doubled.encode q) := by
  induction w generalizing x with
  | nil => rfl
  | cons k w ih =>
      rw [List.forall_mem_cons] at h
      cases x with
      | nil => rfl
      | cons c x =>
          rw [Doubled.encode]
          split
          · rename_i hc
            rw [eq_of_beq hc]
            simp [dropWord?, h.1]
          · rw [dropWord?, dropWord?, ih h.2]
            split <;> rfl

theorem identFollows_encode (x : List Char) :
    identFollows (Doubled.encode q x) = identFollows x := by
  cases x with
  | nil => rfl
  | cons c x =>
      rw [Doubled.encode]
      split
      · rename_i hc
        rw [eq_of_beq hc]
        rfl
      · rfl

theorem frontWeight_encode (h : isIdentChar q = false) (x : List Char) :
    frontWeight (Doubled.encode q x) = frontWeight x := by
  rw [frontWeight, frontWeight, takeWhile_encode h]

theorem aliasWeight_encode (h : Stops q) (x : List Char) :
    aliasWeight (Doubled.encode q x) = aliasWeight x := by
  rw [aliasWeight, aliasWeight, dropWhile_encode h.digit, dropWord?_encode h.lower]
  cases dropWord? ['A', 'S'] (x.dropWhile Digits.isDigit) with
  | none => rfl
  | some r =>
      simp only [Option.map_some, identFollows_encode]
      rw [skip, dropWhile_encode h.gap, frontWeight_encode h.ident]

/-- Quotes that are written twice weigh no less. -/
theorem weightBehind_encode (h : Stops q) (x : List Char) :
    weightBehind x ≤ weightBehind (Doubled.encode q x) := by
  have hweight : weight x ≤ weight (Doubled.encode q x) := by
    induction x with
    | nil => exact Nat.le_refl _
    | cons c x ih =>
        have hcons : weight (c :: x) ≤ weight (c :: Doubled.encode q x) := by
          rw [weight, weight, frontWeight_encode h.ident, aliasWeight_encode h]
          omega
        rw [Doubled.encode]
        split
        · rename_i hc
          obtain rfl : c = q := eq_of_beq hc
          exact hcons.trans (weight_cons_le _ _)
        · exact hcons
  rw [weightBehind, weightBehind, aliasWeight_encode h]
  exact Nat.add_le_add_left hweight _

end

/-! ## Texts of a weight -/

/-- Wherever the text stands as a token of its own, it adds at most `n` to the weight. -/
def Light (n : Nat) (x : List Char) : Prop :=
  ∀ rest, identFollows rest = false → weightBehind (x ++ rest) ≤ n + weight rest

/-- Behind a token the text adds at most `n` to the weight. -/
def LightBehind (n : Nat) (y : List Char) : Prop :=
  ∀ rest, identFollows rest = false →
    identFollows (y ++ rest) = false ∧ weight (y ++ rest) ≤ n + weight rest

theorem Light.mono {n m : Nat} {x : List Char} (h : Light n x) (k : n ≤ m) : Light m x :=
  fun rest hr => (h rest hr).trans (Nat.add_le_add_right k _)

theorem Light.append {n m : Nat} {x y : List Char} (h : Light n x) (k : LightBehind m y) :
    Light (n + m) (x ++ y) := by
  intro rest hr
  obtain ⟨hends, hy⟩ := k rest hr
  have hx := h _ hends
  rw [List.append_assoc]
  omega

theorem LightBehind.mono {n m : Nat} {y : List Char} (h : LightBehind n y) (k : n ≤ m) :
    LightBehind m y :=
  fun rest hr => ⟨(h rest hr).1, (h rest hr).2.trans (Nat.add_le_add_right k _)⟩

theorem LightBehind.nil : LightBehind 0 [] := fun rest hr => ⟨hr, by simp⟩

theorem LightBehind.append {n m : Nat} {x y : List Char} (h : LightBehind n x)
    (k : LightBehind m y) : LightBehind (n + m) (x ++ y) := by
  intro rest hr
  obtain ⟨hends, hy⟩ := k rest hr
  obtain ⟨hends', hx⟩ := h _ hends
  rw [List.append_assoc]
  exact ⟨hends', by omega⟩

/-- Whether no name with AS begins at the front of a text with a first character and others. -/
def noAlias (c : Char) : List Char → Bool
  | [] => false
  | d :: _ => !Digits.isDigit c && (asciiLower c != 'a' || asciiLower d != 's')

/-- Words and signs that weigh nothing and are no AS. -/
def calm : List Char → Bool
  | [] => true
  | [c] => c != '"' && c != '.'
  | c :: d :: s =>
    c != '"' && c != '.' && (isIdentChar c || !isIdentChar d || noAlias d s) && calm (d :: s)

theorem aliasWeight_of_noAlias {c : Char} {s : List Char} (h : noAlias c s = true) (z : List Char) :
    aliasWeight (c :: s ++ z) = 0 := by
  cases s with
  | nil => cases h
  | cons d s =>
      rw [noAlias, Bool.and_eq_true, Bool.not_eq_true', Bool.or_eq_true, bne_iff_ne,
        bne_iff_ne] at h
      obtain ⟨hdigit, ha | hs⟩ := h
      · exact aliasWeight_of_head hdigit ha
      · have hdrop : (c :: d :: s ++ z).dropWhile Digits.isDigit = c :: d :: (s ++ z) := by
          rw [List.cons_append, List.cons_append, List.dropWhile_cons, if_neg (by simp [hdigit])]
        have hne : (asciiLower 'S' == asciiLower d) = false := by
          rw [beq_eq_false_iff_ne]
          exact fun he => hs he.symm
        rw [aliasWeight, hdrop, dropWord?, dropWord?, hne]
        split
        · rename_i heq
          split at heq <;> cases heq
        · rfl

theorem weight_calm {w : List Char} (h : calm w = true) (z : List Char) :
    weight (w ++ z) ≤ weightBehind z := by
  induction w with
  | nil => exact weight_le_behind z
  | cons c w ih =>
      cases w with
      | nil =>
          rw [calm, Bool.and_eq_true, bne_iff_ne, bne_iff_ne] at h
          cases hc : isIdentChar c with
          | true => exact (weight_ident hc z).trans_le (weight_le_behind z)
          | false => exact (weight_other hc h.1 h.2 z).le
      | cons d w =>
          simp only [calm, Bool.and_eq_true, Bool.or_eq_true, bne_iff_ne, Bool.not_eq_true'] at h
          obtain ⟨⟨⟨hq, hp⟩, hnext⟩, hw⟩ := h
          cases hc : isIdentChar c with
          | true => exact (weight_ident hc _).trans_le (ih hw)
          | false =>
              have halias : aliasWeight (d :: w ++ z) = 0 := by
                rcases hnext with (hc' | hd) | hno
                · rw [hc] at hc'
                  cases hc'
                · exact aliasWeight_of_ends hd
                · exact aliasWeight_of_noAlias hno z
              rw [List.cons_append, weight_other hc hq hp, weightBehind, halias, Nat.zero_add]
              exact ih hw

/-- Words and signs by themselves. -/
theorem Light.words {w : List Char} (h : calm (' ' :: w) = true) : Light 0 w := by
  intro rest hr
  have hspace : weight (' ' :: (w ++ rest)) = weightBehind (w ++ rest) :=
    weight_other (by decide) (by decide) (by decide) _
  have hcalm := weight_calm h rest
  rwa [List.cons_append, hspace, weightBehind_of_ends hr, ← Nat.zero_add (weight rest)] at hcalm

/-- A text behind words and signs. -/
theorem Light.lead {n : Nat} {x : List Char} (h : Light n x) {w : List Char}
    (hw : calm (' ' :: w) = true) : Light n (w ++ x) := by
  intro rest hr
  have hspace : weight (' ' :: (w ++ (x ++ rest))) = weightBehind (w ++ (x ++ rest)) :=
    weight_other (by decide) (by decide) (by decide) _
  have hcalm := weight_calm hw (x ++ rest)
  rw [List.cons_append, hspace] at hcalm
  rw [List.append_assoc]
  exact hcalm.trans (h rest hr)

/-- Whether a text begins with a character that is in no word. -/
def leaves (w : List Char) : Bool := w.head?.any fun c => !isIdentChar c

theorem leaves_append {w : List Char} (h : leaves w = true) (x : List Char) :
    identFollows (w ++ x) = false := by
  cases w with
  | nil => cases h
  | cons c w => exact (Bool.not_eq_true' _).mp h

/-- Words and signs behind a token, and a text behind them. -/
theorem Light.follow {n : Nat} {x : List Char} (h : Light n x) {w : List Char} (hw : calm w = true)
    (hc : leaves w = true) : LightBehind n (w ++ x) := by
  intro rest hr
  rw [List.append_assoc]
  exact ⟨leaves_append hc _, (weight_calm hw _).trans (h rest hr)⟩

/-- Words and signs at the end. -/
theorem LightBehind.words {w : List Char} (hw : calm w = true) (hc : leaves w = true) :
    LightBehind 0 w := by
  intro rest hr
  refine ⟨leaves_append hc _, ?_⟩
  rw [Nat.zero_add, ← weightBehind_of_ends hr]
  exact weight_calm hw rest

theorem Light.paren {n : Nat} {x : List Char} (h : Light n x) : Light n ('(' :: (x ++ [')'])) := by
  have hclose : LightBehind 0 [')'] := .words (by decide) (by decide)
  exact (h.append hclose).lead (w := ['(']) (by decide)

theorem Light.grouped {n : Nat} {x : List Char} (h : Light n x) (g : Bool) :
    Light n (grouped g x) := by
  cases g with
  | false => exact h
  | true => exact h.paren

/-! ## Names and literals -/

/-- A word adds nothing unless it is AS. -/
theorem aliasWeight_word {c : Char} {w : List Char} (hc : isIdentStart c = true)
    (hw : w.all isIdentChar = true) (hne : isReserved (String.ofList (c :: w)) = false)
    {rest : List Char} (hr : identFollows rest = false) : aliasWeight (c :: w ++ rest) = 0 := by
  obtain ⟨hident, -, -, -, -, -, -, hdigit⟩ := isIdentStart_spec hc
  have hdrop : (c :: w ++ rest).dropWhile Digits.isDigit = c :: w ++ rest := by
    rw [List.cons_append, List.dropWhile_cons, if_neg (by simp [hdigit])]
  rw [aliasWeight, hdrop]
  split
  · rename_i t ht
    split
    · rfl
    · rename_i hends
      have hall : (c :: w).all isIdentChar = true := by rw [List.all_cons, hident, hw]; rfl
      have hsame := sameName_of_wordNext (v := "AS") (by decide) hall hr ht
        (Bool.eq_false_iff.mpr hends)
      have hreserved : isReserved (String.ofList (c :: w)) = true := by
        rw [← isReserved_congr (a := "AS") (sameName_iff.mpr (hsame.trans
          (by rw [folded, String.toList_ofList])))]
        decide
      rw [hne] at hreserved
      cases hreserved
  · rfl

theorem dropWord?_suffix {w s r : List Char} (h : dropWord? w s = some r) : ∃ x, s = x ++ r := by
  induction w generalizing s with
  | nil =>
      rw [dropWord?, Option.some.injEq] at h
      exact ⟨[], h⟩
  | cons k w ih =>
      cases s with
      | nil => cases h
      | cons c s =>
          rw [dropWord?] at h
          split at h
          · obtain ⟨x, hx⟩ := ih h
            exact ⟨c :: x, by rw [hx]; rfl⟩
          · cases h

/-- A word at the end of a text is no AS with a name behind it. -/
theorem aliasWeight_all {w : List Char} (h : w.all isIdentChar = true) : aliasWeight w = 0 := by
  unfold aliasWeight
  split
  · rename_i t ht
    obtain ⟨x, hx⟩ := dropWord?_suffix ht
    cases t with
    | nil => rfl
    | cons c t =>
        have hmem : c ∈ w := (List.dropWhile_sublist Digits.isDigit).subset (by rw [hx]; simp)
        have hc : identFollows (c :: t) = true := List.all_eq_true.mp h c hmem
        rw [if_pos hc]
  · rfl

theorem asciiLower_digit {c : Char} (h : Digits.isDigit c = true) : asciiLower c = c := by
  refine asciiLower_of_not_capital fun hcap => ?_
  have hlow := (capital_bounds hcap).1
  simp only [Digits.isDigit, Bool.and_eq_true, decide_eq_true_eq] at h
  have hhigh : c.toNat ≤ 57 := h.2
  omega

theorem aliasWeight_of_word {s t : List Char} (h : dropWord? ['A', 'S'] s = some t)
    (hends : identFollows t = false) : aliasWeight s = frontWeight (skip t) := by
  have hdrop : s.dropWhile Digits.isDigit = s := by
    cases s with
    | nil => rfl
    | cons c s =>
        cases hd : Digits.isDigit c with
        | false => rw [List.dropWhile_cons, if_neg (by simp [hd])]
        | true =>
            have hne : (asciiLower 'A' == asciiLower c) = false := by
              rw [beq_eq_false_iff_ne, asciiLower_digit hd]
              rintro rfl
              exact absurd hd (by decide)
            rw [dropWord?, hne] at h
            cases h
  rw [aliasWeight, hdrop, h]
  simp only [hends]
  rfl


theorem frontWeight_word {w : List Char} (hw : w.all isIdentChar = true) {rest : List Char}
    (hr : identFollows rest = false) :
    frontWeight (w ++ rest) = if isReserved (String.ofList w) then 2 else 0 := by
  rw [frontWeight, (takeWhile_word hw hr).1]

theorem light_plain {c : Char} {w : List Char} (hc : isIdentStart c = true)
    (hw : w.all isIdentChar = true) (hne : isReserved (String.ofList (c :: w)) = false) :
    Light 0 (c :: w) := by
  intro rest hr
  have hall : (c :: w).all isIdentChar = true := by
    rw [List.all_cons, (isIdentStart_spec hc).1, hw]
    rfl
  rw [weightBehind, aliasWeight_word hc hw hne hr, weight_word hall]

theorem weight_cons_of_ne {c : Char} (h : isIdentChar c = false) (hp : c ≠ '.') (s : List Char) :
    weight (c :: s) = weight [c] + weightBehind s := by
  have hp' : (c == '.') = false := beq_eq_false_iff_ne.mpr hp
  have hnil : aliasWeight [] = 0 := rfl
  simp only [weight, h, hp', hnil, weightBehind, Bool.false_eq_true, if_false]
  omega

/-- A text that ends with a sign. -/
theorem light_of_last {c : Char} (h : Stops c) (hp : c ≠ '.') (x : List Char) :
    Light (weightBehind (x ++ [c])) (x ++ [c]) := by
  intro rest hr
  have hsplit : x ++ [c] ++ rest = x ++ c :: rest := by rw [List.append_assoc]; rfl
  rw [hsplit, weightBehind_append h, weightBehind_append h, weight_cons_of_ne h.ident hp rest,
    weightBehind_of_ends hr, Nat.add_assoc]

theorem stops_quote : Stops '"' := ⟨by decide, by decide⟩

theorem stops_apostrophe : Stops '\'' := ⟨by decide, by decide⟩

theorem light_quoted {q : Char} (h : Stops q) (hp : q ≠ '.') (name : String) :
    Light (weight (Doubled.quoted q name).toList) (Doubled.quoted q name).toList := by
  have hquoted := light_of_last h hp (q :: Doubled.encode q name.toList)
  rw [Doubled.quoted, String.toList_ofList]
  rwa [List.cons_append, weightBehind_of_ends (show identFollows (q :: _) = false from h.ident)]
    at hquoted

theorem light_name (name : String) : Light (weight (nameChars name)) (nameChars name) := by
  rcases nameChars_cases name with ⟨c, r, hn, hname, hc, hr, hres⟩ | hn
  · have hof : String.ofList (c :: r) = name := by rw [← hname, String.ofList_toList]
    rw [hn]
    exact (light_plain hc hr (by rwa [hof])).mono (Nat.zero_le _)
  · rw [hn]
    exact light_quoted stops_quote (by decide) name

/-- A name as it is written is no reserved word. -/
theorem frontWeight_name (name : String) {rest : List Char} (hr : identFollows rest = false) :
    frontWeight (nameChars name ++ rest) = 0 := by
  rcases nameChars_cases name with ⟨c, r, hn, hname, hc, hall, hres⟩ | hn
  · have hof : String.ofList (c :: r) = name := by rw [← hname, String.ofList_toList]
    have hword : (c :: r).all isIdentChar = true := by
      rw [List.all_cons, (isIdentStart_spec hc).1, hall]
      rfl
    rw [hn, frontWeight_word hword hr, hof, hres]
    rfl
  · rw [hn, Doubled.quoted, String.toList_ofList]
    exact frontWeight_of_ends rfl

theorem weight_point (s : List Char) : weight ('.' :: s) = frontWeight s + weightBehind s := by
  simp [weight, weightBehind, show isIdentChar '.' = false from by decide, Nat.add_assoc]

/-- A point with the name behind it. -/
theorem lightBehind_point (name : String) :
    LightBehind (weight (nameChars name)) ('.' :: nameChars name) := by
  intro rest hr
  refine ⟨rfl, ?_⟩
  rw [List.cons_append, weight_point, frontWeight_name name hr, Nat.zero_add]
  exact light_name name rest hr

theorem lightBehind_alias (a : Option String) :
    LightBehind (a.elim 0 fun n => weight (nameChars n)) (aliasChars a) := by
  cases a with
  | none => exact .nil
  | some a =>
      intro rest hr
      have hname := light_name a rest hr
      have hskip : skip (' ' :: (nameChars a ++ rest)) = nameChars a ++ rest := by
        rw [skip, List.dropWhile_cons, if_pos (by decide)]
        exact (nameChars_solid a).skip rest
      have halias : aliasWeight ('A' :: 'S' :: ' ' :: (nameChars a ++ rest)) = 0 := by
        have hdrop : dropWord? ['A', 'S'] (('A' :: 'S' :: ' ' :: (nameChars a ++ rest)).dropWhile
            Digits.isDigit) = some (' ' :: (nameChars a ++ rest)) := rfl
        have hends : identFollows (' ' :: (nameChars a ++ rest)) = false := rfl
        rw [aliasWeight, hdrop]
        simp only [hends, hskip, frontWeight_name a hr]
        rfl
      have hchars : aliasChars (some a) ++ rest =
          ' ' :: 'A' :: 'S' :: ' ' :: (nameChars a ++ rest) := by
        rw [aliasChars, List.append_assoc]
        rfl
      rw [hchars]
      refine ⟨rfl, ?_⟩
      rw [weight_other (by decide) (by decide) (by decide), weightBehind, halias,
        weight_ident (by decide), weight_ident (by decide),
        weight_other (by decide) (by decide) (by decide), Nat.zero_add]
      exact hname

theorem light_digits {ds : List Char} (h : ds.all Digits.isDigit = true) : Light 0 ds := by
  intro rest hr
  have hdrop : (ds ++ rest).dropWhile Digits.isDigit = rest.dropWhile Digits.isDigit := by
    rw [List.dropWhile_append, List.dropWhile_eq_nil_iff.mpr (List.all_eq_true.mp h)]
    rfl
  rw [← weightBehind_digits, hdrop, weightBehind_digits, weightBehind_of_ends hr, Nat.zero_add]

theorem light_integer (i : Int64) : Light 0 (Value.literal (.integer i)).toList := by
  rw [literal_integer, Digits.ofInt]
  split
  · exact (light_digits (Digits.ofNat_all _)).lead (w := ['-']) (by decide)
  · exact light_digits (Digits.ofNat_all _)

theorem isReserved_digits {ds : List Char} (h : ds.all Digits.isDigit = true) :
    isReserved (String.ofList ds) = false := by
  rw [isReserved, List.any_eq_false]
  intro k hk hs
  have hletter : ∀ k ∈ reservedWords, ((folded k).all Digits.isDigit) = false := by decide
  have hsame : folded k = folded (String.ofList ds) := sameName_iff.mp hs
  have hfolded : (folded (String.ofList ds)).all Digits.isDigit = true := by
    rw [folded, String.toList_ofList, List.all_map]
    rw [List.all_eq_true] at h ⊢
    intro c hc
    rw [Function.comp_apply, asciiLower_digit (h c hc)]
    exact h c hc
  rw [← hsame, hletter k hk] at hfolded
  cases hfolded

theorem light_numeric (d : Decimal) : Light 0 (Value.literal (.numeric d)).toList := by
  have hpart : LightBehind 0 ('.' :: d.partChars) := by
    intro rest hr
    have hall : d.partChars.all Digits.isDigit = true := by
      unfold Decimal.partChars
      split
      · decide
      · exact Digits.lastDigits_all _ _
    have hword : d.partChars.all isIdentChar = true := by
      rw [List.all_eq_true] at hall ⊢
      exact fun c hc => (isDigit_spec (hall c hc)).1
    rw [List.cons_append, weight_point, frontWeight_word hword hr, isReserved_digits hall]
    exact ⟨rfl, by simpa using light_digits hall rest hr⟩
  have hwhole : Light 0 (d.wholeChars ++ '.' :: d.partChars) :=
    (light_digits (Digits.ofNat_all _)).append hpart
  rw [literal_numeric]
  cases d.negative with
  | false => exact hwhole
  | true => exact hwhole.lead (w := ['-']) (by decide)

end Rowtime.Sql
