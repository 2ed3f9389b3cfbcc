import Mathlib.Data.List.Forall2

/-!
# Outcomes that may be errors

What a chain of `Except` steps says when it ends well: each step did. A list of steps that
ends well gave one result for each of its entries (`mapM_eq_ok`). `Ends x post bad` speaks
of both ways a computation can end, and `Carries R x y` of a computation that has a result
where another one has; there is one rule for each way to put computations together.
-/

namespace TableFlow

variable {ε α β : Type}

theorem bind_eq_ok {x : Except ε α} {f : α → Except ε β} {b : β} :
    (x >>= f) = .ok b ↔ ∃ a, x = .ok a ∧ f a = .ok b := by
  cases x <;> simp [bind, Except.bind]

theorem exists_ok_iff {x : Except ε α} : (∃ a, x = .ok a) ↔ ¬∃ e, x = .error e := by
  cases x <;> simp

theorem map_eq_ok {x : Except ε α} {f : α → β} {b : β} :
    x.map f = .ok b ↔ ∃ a, x = .ok a ∧ f a = b := by
  cases x <;> simp [Except.map]

theorem map_eq_error {x : Except ε α} {f : α → β} {e : ε} :
    x.map f = .error e ↔ x = .error e := by
  cases x <;> simp [Except.map]

theorem guard_eq_ok {c : Prop} [Decidable c] {e : ε} {f : α → Except ε β}
    {y : Except ε β} {b : β} :
    (if c then .error e >>= f else y) = .ok b ↔ ¬c ∧ y = .ok b := by
  by_cases h : c <;> simp [h, bind, Except.bind]

theorem mapM_eq_ok {f : α → Except ε β} {l : List α} {r : List β} :
    l.mapM f = .ok r ↔ List.Forall₂ (fun a b => f a = .ok b) l r := by
  induction l generalizing r with
  | nil => cases r <;> simp [pure, Except.pure]
  | cons a l ih =>
    simp only [List.mapM_cons, bind_eq_ok, ih, pure, Except.pure, Except.ok.injEq]
    constructor
    · rintro ⟨b, hb, bs, hbs, rfl⟩
      exact .cons hb hbs
    · rintro (_ | ⟨hb, hbs⟩)
      exact ⟨_, hb, _, hbs, rfl⟩

/-- A list of steps that each give a result. -/
theorem mapM_eq_map {f : α → Except ε β} {g : α → β} {l : List α}
    (h : ∀ a ∈ l, f a = .ok (g a)) : l.mapM f = .ok (l.map g) :=
  mapM_eq_ok.2 (List.forall₂_map_right_iff.2 (List.forall₂_same.2 h))

/-- A list of steps fails if one of them does. -/
theorem mapM_eq_error {f : α → Except ε β} {l : List α} :
    (∃ e, l.mapM f = .error e) ↔ ∃ a ∈ l, ∃ e, f a = .error e := by
  induction l with
  | nil => simp [pure, Except.pure]
  | cons a l ih =>
    simp only [List.mapM_cons, List.mem_cons, or_and_right, exists_or, exists_eq_left, ← ih]
    cases f a with
    | error e => simp [bind, Except.bind]
    | ok b => cases l.mapM f <;> simp [bind, Except.bind, pure, Except.pure]

theorem exists_mapM_ok {f : α → Except ε β} {l : List α} :
    (∃ r, l.mapM f = .ok r) ↔ ∀ a ∈ l, ∃ b, f a = .ok b := by
  simp only [exists_ok_iff, mapM_eq_error, not_exists, not_and]

theorem map_eq_map_of_forall₂ {γ : Type} {f : α → γ} {g : β → γ} {l : List α} {r : List β}
    (h : List.Forall₂ (fun a b => g b = f a) l r) : r.map g = l.map f := by
  induction h with
  | nil => rfl
  | cons same _ ih => rw [List.map_cons, List.map_cons, same, ih]

theorem map_eq_of_forall₂ {g : β → α} {l : List α} {r : List β}
    (h : List.Forall₂ (fun a b => g b = a) l r) : r.map g = l := by
  rw [map_eq_map_of_forall₂ h, List.map_id']

theorem exists_of_forall₂ {fits : α → β → Prop} {l : List α} {r : List β}
    (h : List.Forall₂ fits l r) {b : β} (hb : b ∈ r) : ∃ a ∈ l, fits a b := by
  induction h with
  | nil => cases hb
  | cons fit _ ih =>
    rcases List.mem_cons.1 hb with rfl | hb
    · exact ⟨_, List.mem_cons_self .., fit⟩
    · obtain ⟨a, ha, fit⟩ := ih hb
      exact ⟨a, List.mem_cons_of_mem _ ha, fit⟩

theorem mapM_congr {f g : α → Except ε β} {l : List α} (h : ∀ a ∈ l, f a = g a) :
    l.mapM f = l.mapM g := by
  induction l with
  | nil => rfl
  | cons a l ih =>
    rw [List.mapM_cons, List.mapM_cons, h a (List.mem_cons_self ..),
      ih fun b hb => h b (List.mem_cons_of_mem _ hb)]

theorem mapM_eq_some {f : α → Option β} {l : List α} {r : List β} :
    l.mapM f = some r ↔ List.Forall₂ (fun a b => f a = some b) l r := by
  induction l generalizing r with
  | nil => cases r <;> simp
  | cons a l ih =>
    simp only [List.mapM_cons, Option.bind_eq_bind, Option.bind_eq_some_iff, ih,
      Option.pure_def, Option.some.injEq]
    constructor
    · rintro ⟨b, hb, bs, hbs, rfl⟩
      exact .cons hb hbs
    · rintro (_ | ⟨hb, hbs⟩)
      exact ⟨_, hb, _, hbs, rfl⟩

/-- A list of lookups that all find something. -/
theorem exists_mapM {f : α → Option β} {l : List α} (h : ∀ a ∈ l, ∃ b, f a = some b) :
    ∃ r, l.mapM f = some r := by
  induction l with
  | nil => exact ⟨[], rfl⟩
  | cons a l ih =>
    obtain ⟨b, first⟩ := h a (List.mem_cons_self ..)
    obtain ⟨r, rest⟩ := ih fun c hc => h c (List.mem_cons_of_mem _ hc)
    exact ⟨b :: r, mapM_eq_some.2 (.cons first (mapM_eq_some.1 rest))⟩

/-- How a computation ends: with a result that is `post` or an error that is `bad`. -/
def Ends (x : Except ε α) (post : α → Prop) (bad : ε → Prop) : Prop :=
  match x with
  | .ok a => post a
  | .error e => bad e

namespace Ends

variable {x : Except ε α} {post post' : α → Prop} {bad bad' : ε → Prop}

theorem of_eq_ok {a : α} (h : Ends x post bad) (ok : x = .ok a) : post a := by
  subst ok
  exact h

theorem of_eq_error {e : ε} (h : Ends x post bad) (error : x = .error e) : bad e := by
  subst error
  exact h

/-- What cannot fail has a result. -/
theorem exists_ok (h : Ends x post fun _ => False) : ∃ a, x = .ok a ∧ post a := by
  cases x with
  | ok a => exact ⟨a, rfl, h⟩
  | error e => exact h.elim

/-- What is known of the result in another way. -/
theorem of_ok (h : Ends x post bad) (ok : ∀ a, x = .ok a → post' a) : Ends x post' bad := by
  cases x with
  | ok a => exact ok a rfl
  | error e => exact h

theorem mono (h : Ends x post bad) (hpost : ∀ a, post a → post' a)
    (hbad : ∀ e, bad e → bad' e) : Ends x post' bad' := by
  cases x with
  | ok a => exact hpost a h
  | error e => exact hbad e h

theorem bind {f : α → Except ε β} {post : β → Prop} {mid : α → Prop} (h : Ends x mid bad)
    (hf : ∀ a, mid a → Ends (f a) post bad) : Ends (x >>= f) post bad := by
  cases x with
  | ok a => exact hf a h
  | error e => exact h

theorem map {f : α → β} {post : β → Prop} (h : Ends x (fun a => post (f a)) bad) :
    Ends (f <$> x) post bad := by
  cases x <;> exact h

/-- The results of a list of computations, entry by entry. -/
theorem mapM {f : α → Except ε β} {l : List α} {R : α → β → Prop}
    (h : ∀ a ∈ l, Ends (f a) (R a) bad) :
    Ends (l.mapM f) (List.Forall₂ R l) bad := by
  induction l with
  | nil => exact List.Forall₂.nil
  | cons a l ih =>
    rw [List.mapM_cons]
    refine (h a (List.mem_cons_self ..)).bind fun b hb => ?_
    refine (ih fun c hc => h c (List.mem_cons_of_mem _ hc)).bind fun bs hbs => ?_
    exact List.Forall₂.cons hb hbs

/-- A list of computations has a list of as many results. -/
theorem mapM_length {f : α → Except ε β} {l : List α}
    (h : ∀ a ∈ l, Ends (f a) (fun _ => True) bad) :
    Ends (l.mapM f) (fun r => r.length = l.length) bad :=
  (Ends.mapM h).mono (fun _ each => each.length_eq.symm) fun _ => id

/-- What each step keeps, a chain of steps keeps. -/
theorem foldlM {f : β → α → Except ε β} {l : List α} {inv : β → Prop} {b : β} (start : inv b)
    (h : ∀ b, ∀ a ∈ l, inv b → Ends (f b a) inv bad) : Ends (l.foldlM f b) inv bad := by
  induction l generalizing b with
  | nil => exact start
  | cons a l ih =>
    rw [List.foldlM_cons]
    refine (h b a (List.mem_cons_self ..) start).bind fun b' kept => ?_
    exact ih kept fun c d hd => h c d (List.mem_cons_of_mem _ hd)

/-- A list of computations whose results tell what they are of. -/
theorem mapM_map {f : α → Except ε β} {g : β → α} {l : List α}
    (h : ∀ a ∈ l, Ends (f a) (fun b => g b = a) bad) :
    Ends (l.mapM f) (fun r => r.map g = l) bad :=
  (Ends.mapM h).mono (fun _ => map_eq_of_forall₂) fun _ => id

end Ends

/-! ## Two computations -/

section
variable {γ δ : Type} {R : α → β → Prop} {x : Except ε α} {y : Except ε β}

/-- If one computation has a result, so has the other, and they are related. -/
def Carries (R : α → β → Prop) (x : Except ε α) (y : Except ε β) : Prop :=
  ∀ a, x = .ok a → ∃ b, y = .ok b ∧ R a b

namespace Carries

theorem ok {a : α} {b : β} (h : R a b) :
    Carries R (.ok a : Except ε α) (.ok b : Except ε β) := by
  rintro _ ⟨⟩
  exact ⟨b, rfl, h⟩

theorem error {e : ε} : Carries R (.error e) y := by
  rintro _ ⟨⟩

theorem bind {S : γ → δ → Prop} {f : α → Except ε γ} {g : β → Except ε δ}
    (first : Carries R x y) (rest : ∀ a b, R a b → Carries S (f a) (g b)) :
    Carries S (x >>= f) (y >>= g) := by
  intro c made
  obtain ⟨a, here, made⟩ := bind_eq_ok.1 made
  obtain ⟨b, there, related⟩ := first a here
  obtain ⟨d, made', related⟩ := rest a b related c made
  exact ⟨d, bind_eq_ok.2 ⟨b, there, made'⟩, related⟩

theorem mono {S : α → β → Prop} (h : Carries R x y) (weaker : ∀ a b, R a b → S a b) :
    Carries S x y := by
  intro a made
  obtain ⟨b, there, related⟩ := h a made
  exact ⟨b, there, weaker a b related⟩

theorem mapM {S : γ → δ → Prop} {f : γ → Except ε α} {g : δ → Except ε β} {l : List γ}
    {l' : List δ} (related : List.Forall₂ S l l') (each : ∀ c d, S c d → Carries R (f c) (g d)) :
    Carries (List.Forall₂ R) (l.mapM f) (l'.mapM g) := by
  induction related with
  | nil => exact ok .nil
  | @cons c d l l' first _ ih =>
    rw [List.mapM_cons, List.mapM_cons]
    refine (each c d first).bind fun a b here => ?_
    exact ih.bind fun as bs rest => ok (.cons here rest)

end Carries

end

end TableFlow
