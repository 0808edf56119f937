import Mathlib.Data.List.Forall2
import Rowtime.Relation.Query

/-!
# Results of lists

`collect` and `filterM` run a partial function along a list and stop at the
first fault. Both are described by what they give when there is no fault: the
results one by one, and the elements that pass. From this follow the laws for
lists put together, for parts of a list and for permuted lists.
-/
namespace Rowtime

variable {ε : Type} {α β : Type}

/-- A chain of two computations succeeds when both do. -/
theorem bind_eq_ok {x : Except ε α} {f : α → Except ε β} {b : β} :
    x >>= f = .ok b ↔ ∃ a, x = .ok a ∧ f a = .ok b := by
  cases x <;> simp [bind, Except.bind]

theorem map_eq_ok {x : Except ε α} {f : α → β} {b : β} :
    f <$> x = .ok b ↔ ∃ a, x = .ok a ∧ f a = b := by
  cases x <;> simp [Functor.map, Except.map]

@[simp] theorem pure_eq_ok {a b : α} : (pure a : Except ε α) = .ok b ↔ a = b := by
  simp [pure, Except.pure]

@[simp] theorem ok_bind (a : α) (f : α → Except ε β) : (Except.ok a : Except ε α) >>= f = f a := rfl

@[simp] theorem error_bind (e : ε) (f : α → Except ε β) :
    (Except.error e : Except ε α) >>= f = .error e := rfl

/-- Whether a test gives true. -/
def passes (test : α → Except Fault Bool) (a : α) : Bool :=
  match test a with
  | .ok b => b
  | .error _ => false

theorem passes_of_ok {test : α → Except Fault Bool} {a : α} {b : Bool} (h : test a = .ok b) :
    passes test a = b := by
  simp [passes, h]

theorem eq_ok_of_passes {test : α → Except Fault Bool} {a : α} (h : passes test a = true) :
    test a = .ok true := by
  unfold passes at h
  split at h
  · simp_all
  · simp at h

/-- A computation that gives a result. -/
def Succeeds (x : Except Fault α) : Prop := ∃ a, x = .ok a

theorem Succeeds.eq_passes {test : α → Except Fault Bool} {a : α} (h : Succeeds (test a)) :
    test a = .ok (passes test a) := by
  obtain ⟨b, hb⟩ := h
  rw [hb, passes_of_ok hb]

theorem collect_nil (f : α → Except Fault β) : collect f [] = .ok [] := rfl

theorem collect_cons_eq_ok {f : α → Except Fault β} {a : α} {as : List α} {bs : List β} :
    collect f (a :: as) = .ok bs ↔
      ∃ b rest, f a = .ok b ∧ collect f as = .ok rest ∧ bs = b :: rest := by
  simp only [collect, bind_eq_ok, pure_eq_ok]
  constructor
  · rintro ⟨b, hb, rest, hr, rfl⟩
    exact ⟨b, rest, hb, hr, rfl⟩
  · rintro ⟨b, rest, hb, hr, rfl⟩
    exact ⟨b, hb, rest, hr, rfl⟩

/-- The results stand one by one beside what they come from. -/
theorem collect_eq_ok_iff {f : α → Except Fault β} {as : List α} {bs : List β} :
    collect f as = .ok bs ↔ List.Forall₂ (fun a b => f a = .ok b) as bs := by
  induction as generalizing bs with
  | nil =>
      rw [collect_nil, Except.ok.injEq]
      constructor
      · rintro rfl
        exact .nil
      · intro h
        cases h
        rfl
  | cons a as ih =>
      rw [collect_cons_eq_ok]
      constructor
      · rintro ⟨b, rest, hb, hr, rfl⟩
        exact .cons hb (ih.mp hr)
      · intro h
        cases h with
        | cons hb hr => exact ⟨_, _, hb, ih.mpr hr, rfl⟩

theorem length_of_collect {f : α → Except Fault β} {as : List α} {bs : List β}
    (h : collect f as = .ok bs) : bs.length = as.length :=
  (collect_eq_ok_iff.mp h).length_eq.symm

/-- Results that are those of another computation, changed one by one. -/
theorem collect_changed {γ : Type} {f : α → Except Fault β} {g : α → Except Fault γ}
    {change : β → γ} (hg : ∀ a b, f a = .ok b → g a = .ok (change b)) {as : List α} {bs : List β}
    (h : collect f as = .ok bs) : collect g as = .ok (bs.map change) := by
  rw [collect_eq_ok_iff] at h ⊢
  rw [List.forall₂_map_right_iff]
  exact h.imp hg

theorem exists_of_mem_collect {f : α → Except Fault β} {as : List α} {bs : List β}
    (h : collect f as = .ok bs) {b : β} (hb : b ∈ bs) : ∃ a ∈ as, f a = .ok b := by
  induction as generalizing bs with
  | nil =>
      rw [collect_nil, Except.ok.injEq] at h
      simp [← h] at hb
  | cons a as ih =>
      obtain ⟨b', rest, hb', hr, rfl⟩ := collect_cons_eq_ok.mp h
      rcases List.mem_cons.mp hb with rfl | hb
      · exact ⟨a, by simp, hb'⟩
      · obtain ⟨c, hc, he⟩ := ih hr hb
        exact ⟨c, by simp [hc], he⟩

theorem exists_mem_of_collect {f : α → Except Fault β} {as : List α} {bs : List β}
    (h : collect f as = .ok bs) {a : α} (ha : a ∈ as) : ∃ b ∈ bs, f a = .ok b := by
  induction as generalizing bs with
  | nil => cases ha
  | cons x as ih =>
      obtain ⟨b, rest, hb, hr, rfl⟩ := collect_cons_eq_ok.mp h
      rcases List.mem_cons.mp ha with rfl | ha
      · exact ⟨b, by simp, hb⟩
      · obtain ⟨c, hc, he⟩ := ih hr ha
        exact ⟨c, by simp [hc], he⟩

/-- When every element succeeds, so does the list. -/
theorem collect_succeeds {f : α → Except Fault β} {as : List α}
    (h : ∀ a ∈ as, Succeeds (f a)) : Succeeds (collect f as) := by
  induction as with
  | nil => exact ⟨[], rfl⟩
  | cons a as ih =>
      obtain ⟨b, hb⟩ := h a (by simp)
      obtain ⟨bs, hbs⟩ := ih fun x hx => h x (by simp [hx])
      exact ⟨b :: bs, collect_cons_eq_ok.mpr ⟨b, bs, hb, hbs, rfl⟩⟩

theorem succeeds_of_collect {f : α → Except Fault β} {as : List α} {bs : List β}
    (h : collect f as = .ok bs) {a : α} (ha : a ∈ as) : Succeeds (f a) := by
  obtain ⟨b, -, hb⟩ := exists_mem_of_collect h ha
  exact ⟨b, hb⟩

theorem collect_eq_map {f : α → Except Fault β} {g : α → β} {as : List α}
    (h : ∀ a ∈ as, f a = .ok (g a)) : collect f as = .ok (as.map g) := by
  induction as with
  | nil => rfl
  | cons a as ih =>
      rw [collect, h a (by simp), ih fun x hx => h x (by simp [hx])]
      rfl

theorem collect_congr {f g : α → Except Fault β} {as : List α} (h : ∀ a ∈ as, f a = g a) :
    collect f as = collect g as := by
  induction as with
  | nil => rfl
  | cons a as ih =>
      rw [List.forall_mem_cons] at h
      rw [collect, collect, h.1, ih h.2]

theorem collect_map {γ : Type} (f : β → Except Fault γ) (g : α → β) (as : List α) :
    collect f (as.map g) = collect (fun a => f (g a)) as := by
  induction as with
  | nil => rfl
  | cons a as ih => rw [List.map_cons, collect, collect, ih]

theorem collect_bind_ok {γ : Type} (f : α → Except Fault β) (g : β → γ) (as : List α) :
    collect (fun a => f a >>= fun b => .ok (g b)) as =
      (collect f as >>= fun bs => .ok (bs.map g)) := by
  induction as with
  | nil => rfl
  | cons a as ih =>
      rw [collect, collect, ih]
      cases f a with
      | error why => rfl
      | ok b => cases collect f as <;> rfl

namespace Relation

theorem filterM_congr {test test' : α → Except Fault Bool} {as : List α}
    (h : ∀ a ∈ as, test a = test' a) : filterM test as = filterM test' as := by
  induction as with
  | nil => rfl
  | cons a as ih =>
      rw [List.forall_mem_cons] at h
      rw [filterM, filterM, h.1, ih h.2]

/-- The elements that pass, when every element can be tested. -/
theorem filterM_eq_ok_iff {test : α → Except Fault Bool} {as bs : List α} :
    filterM test as = .ok bs ↔
      (∀ a ∈ as, Succeeds (test a)) ∧ bs = as.filter (passes test) := by
  induction as generalizing bs with
  | nil => simp [filterM, eq_comm]
  | cons a as ih =>
      simp only [filterM, bind_eq_ok, pure_eq_ok, List.forall_mem_cons, List.filter_cons]
      constructor
      · rintro ⟨b, hb, rest, hr, rfl⟩
        obtain ⟨hs, rfl⟩ := ih.mp hr
        exact ⟨⟨⟨b, hb⟩, hs⟩, by rw [passes_of_ok hb]⟩
      · rintro ⟨⟨⟨b, hb⟩, hs⟩, rfl⟩
        exact ⟨b, hb, _, ih.mpr ⟨hs, rfl⟩, by rw [passes_of_ok hb]⟩

end Relation

end Rowtime
