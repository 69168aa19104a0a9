import Mathlib.Data.List.Forall2

/-!
# Computations that can fail

Reading, registering and finishing are chains of computations of which each can fail. One lemma for
each way of putting them together says when the whole succeeds, or how it fails, in terms of its
parts: for computations over a list, what it makes stands in the relation `List.Forall₂` to what it
is made from.
-/

namespace WorkflowPaths

variable {ε ε' α β γ : Type}

/-! ### Chains of computations -/

theorem pure_eq_ok_iff {a b : α} : (pure a : Except ε α) = .ok b ↔ a = b := by
  simp [pure, Except.pure]

theorem bind_eq_ok_iff {x : Except ε α} {f : α → Except ε β} {b : β} :
    x >>= f = .ok b ↔ ∃ a, x = .ok a ∧ f a = .ok b := by
  cases x <;> simp [bind, Except.bind]

theorem bind_eq_error_iff {x : Except ε α} {f : α → Except ε β} {e : ε} :
    x >>= f = .error e ↔ x = .error e ∨ ∃ a, x = .ok a ∧ f a = .error e := by
  cases x <;> simp [bind, Except.bind]

theorem mapError_eq_ok_iff {x : Except ε α} {f : ε → ε'} {a : α} :
    x.mapError f = .ok a ↔ x = .ok a := by
  cases x <;> simp [Except.mapError]

theorem mapError_eq_error_iff {x : Except ε α} {f : ε → ε'} {error : ε'} :
    x.mapError f = .error error ↔ ∃ cause, x = .error cause ∧ f cause = error := by
  cases x <;> simp [Except.mapError]

/-- A computation over a list succeeds when it succeeds on every element. -/
theorem mapM_eq_ok_iff {f : α → Except ε β} {l : List α} {r : List β} :
    l.mapM f = .ok r ↔ List.Forall₂ (fun a b => f a = .ok b) l r := by
  induction l generalizing r with
  | nil =>
    rw [List.mapM_nil, pure_eq_ok_iff, List.forall₂_nil_left_iff]
    exact eq_comm
  | cons a l ih =>
    rw [List.mapM_cons, List.forall₂_cons_left_iff]
    simp only [bind_eq_ok_iff, ih, pure_eq_ok_iff]
    constructor
    · rintro ⟨b, hb, bs, hbs, rfl⟩
      exact ⟨b, bs, hb, hbs, rfl⟩
    · rintro ⟨b, bs, hb, hbs, rfl⟩
      exact ⟨b, hb, bs, hbs, rfl⟩

theorem mapM_eq_mapM_of_forall₂ {f : α → Except ε γ} {g : β → Except ε γ}
    {l : List α} {l' : List β} (h : List.Forall₂ (fun a b => f a = g b) l l') :
    l.mapM f = l'.mapM g := by
  induction h with
  | nil => rfl
  | cons hab _ ih => rw [List.mapM_cons, List.mapM_cons, hab, ih]

/-- A computation along a list, of which each step can fail to find what it goes on with. -/
theorem foldlM_eq_ok_iff {f : β → α → Except ε β} {step : β → γ → β}
    {R : α → γ → Prop} (hstep : ∀ b a b', f b a = .ok b' ↔ ∃ x, R a x ∧ step b x = b')
    {l : List α} {b b' : β} :
    l.foldlM f b = .ok b' ↔ ∃ xs, List.Forall₂ R l xs ∧ xs.foldl step b = b' := by
  induction l generalizing b with
  | nil => simp [pure_eq_ok_iff]
  | cons a l ih =>
    simp only [List.foldlM_cons, bind_eq_ok_iff, hstep, ih, List.forall₂_cons_left_iff]
    constructor
    · rintro ⟨_, ⟨x, hx, rfl⟩, xs, hxs, rfl⟩
      exact ⟨x :: xs, ⟨x, xs, hx, hxs, rfl⟩, rfl⟩
    · rintro ⟨_, ⟨x, xs, hx, hxs, rfl⟩, rfl⟩
      exact ⟨_, ⟨x, hx, rfl⟩, xs, hxs, rfl⟩

/-- A computation along a list fails in the way in which a step of it fails, behind steps that
succeed. -/
theorem foldlM_eq_error_iff {f : β → α → Except ε β} {l : List α} {b : β} {e : ε} :
    l.foldlM f b = .error e ↔ ∃ before a after b', l = before ++ a :: after ∧
      before.foldlM f b = .ok b' ∧ f b' a = .error e := by
  induction l generalizing b with
  | nil => simp [pure, Except.pure]
  | cons a l ih =>
    rw [List.foldlM_cons, bind_eq_error_iff]
    constructor
    · rintro (hfail | ⟨b', hb', hfail⟩)
      · exact ⟨[], a, l, b, rfl, rfl, hfail⟩
      · obtain ⟨before, x, after, b'', rfl, hbefore, hx⟩ := ih.1 hfail
        refine ⟨a :: before, x, after, b'', rfl, ?_, hx⟩
        rw [List.foldlM_cons, bind_eq_ok_iff]
        exact ⟨b', hb', hbefore⟩
    · rintro ⟨before, x, after, b'', hl, hbefore, hx⟩
      cases before with
      | nil =>
        cases hl
        cases hbefore
        exact .inl hx
      | cons y before =>
        cases hl
        rw [List.foldlM_cons, bind_eq_ok_iff] at hbefore
        obtain ⟨b', hb', hbefore⟩ := hbefore
        exact .inr ⟨b', hb', ih.2 ⟨before, x, after, b'', rfl, hbefore, hx⟩⟩

/-- A computation along a list does not fail in a way in which no step of it fails. -/
theorem foldlM_ne_error {f : β → α → Except ε β} {e : ε} (h : ∀ b a, f b a ≠ .error e) (l : List α)
    (b : β) : l.foldlM f b ≠ .error e := by
  intro hfail
  obtain ⟨_, a, _, b', -, -, hstep⟩ := foldlM_eq_error_iff.1 hfail
  exact h b' a hstep

/-! ### What is made stands beside what it is made from -/

theorem forall₂_comp {R : α → β → Prop} {S : β → γ → Prop}
    {T : α → γ → Prop} {l : List α} {m : List β} {r : List γ} (hl : List.Forall₂ R l m)
    (hr : List.Forall₂ S m r) (h : ∀ a b c, R a b → S b c → T a c) : List.Forall₂ T l r := by
  induction hl generalizing r with
  | nil =>
    cases hr
    exact .nil
  | cons hab _ ih =>
    cases hr with
    | cons hbc hr => exact .cons (h _ _ _ hab hbc) (ih hr)

theorem exists_of_forall₂_left {R : α → β → Prop} {l : List α} {r : List β}
    (h : List.Forall₂ R l r) {a : α} (ha : a ∈ l) : ∃ b ∈ r, R a b := by
  induction h with
  | nil => cases ha
  | cons hab _ ih =>
    rcases List.mem_cons.1 ha with rfl | ha
    · exact ⟨_, List.mem_cons_self, hab⟩
    · obtain ⟨b, hb, hab⟩ := ih ha
      exact ⟨b, List.mem_cons_of_mem _ hb, hab⟩

theorem exists_of_forall₂_right {R : α → β → Prop} {l : List α} {r : List β}
    (h : List.Forall₂ R l r) {b : β} (hb : b ∈ r) : ∃ a ∈ l, R a b := by
  have hflip : List.Forall₂ (flip R) r l := List.Forall₂.flip h
  exact exists_of_forall₂_left hflip hb

theorem exists_forall₂_iff {R : α → β → Prop} {l : List α} :
    (∃ r, List.Forall₂ R l r) ↔ ∀ a ∈ l, ∃ b, R a b := by
  constructor
  · rintro ⟨r, h⟩ a ha
    obtain ⟨b, -, hab⟩ := exists_of_forall₂_left h ha
    exact ⟨b, hab⟩
  · intro h
    induction l with
    | nil => exact ⟨[], .nil⟩
    | cons a l ih =>
      obtain ⟨b, hab⟩ := h a List.mem_cons_self
      obtain ⟨r, hr⟩ := ih fun x hx => h x (List.mem_cons_of_mem a hx)
      exact ⟨b :: r, .cons hab hr⟩

theorem map_eq_map_of_forall₂ {f : α → γ} {g : β → γ} {l : List α} {l' : List β}
    (h : List.Forall₂ (fun a b => f a = g b) l l') : l.map f = l'.map g := by
  rw [← List.forall₂_eq_eq_eq, List.forall₂_map_left_iff, List.forall₂_map_right_iff]
  exact h

theorem forall₂_zip_zip {R : α → β → Prop} {l : List α} {l' : List β}
    (h : List.Forall₂ R l l') (ids : List γ) :
    List.Forall₂ (fun x y => R x.1 y.1 ∧ x.2 = y.2) (l.zip ids) (l'.zip ids) := by
  induction h generalizing ids with
  | nil => exact .nil
  | cons hab _ ih =>
    cases ids with
    | nil => exact .nil
    | cons id ids => exact .cons ⟨hab, rfl⟩ (ih ids)

end WorkflowPaths
