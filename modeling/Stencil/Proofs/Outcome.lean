import Mathlib.Tactic.Common

namespace Stencil.Outcome

variable {σ ε α β : Type}

lemma pure_ok {a b : α} {s t : σ} :
    (pure a : StateT σ (Except ε) α) s = .ok (b, t) ↔ a = b ∧ s = t := by
  change Except.ok (a, s) = Except.ok (b, t) ↔ _
  simp

lemma bind_ok {m : StateT σ (Except ε) α} {f : α → StateT σ (Except ε) β} {s t : σ} {b : β} :
    (m >>= f) s = .ok (b, t) ↔ ∃ a u, m s = .ok (a, u) ∧ f a u = .ok (b, t) := by
  change (m s >>= fun p => f p.1 p.2) = .ok (b, t) ↔ _
  cases m s with
  | error e => simp [bind, Except.bind]
  | ok p =>
    constructor
    · intro h
      exact ⟨p.1, p.2, rfl, h⟩
    · rintro ⟨a, u, h, hf⟩
      cases h
      exact hf

lemma bind_of_ok {m : StateT σ (Except ε) α} {f : α → StateT σ (Except ε) β} {s t : σ} {a : α}
    (h : m s = .ok (a, t)) : (m >>= f) s = f a t := by
  change (m s >>= fun p => f p.1 p.2) = f a t
  rw [h]
  rfl

lemma bind_error {m : StateT σ (Except ε) α} {f : α → StateT σ (Except ε) β} {s : σ} {e : ε} :
    (m >>= f) s = .error e ↔ m s = .error e ∨ ∃ a u, m s = .ok (a, u) ∧ f a u = .error e := by
  change (m s >>= fun p => f p.1 p.2) = .error e ↔ _
  cases m s with
  | error e => simp [bind, Except.bind]
  | ok p =>
    constructor
    · intro h
      exact Or.inr ⟨p.1, p.2, rfl, h⟩
    · rintro (h | ⟨a, u, h, hf⟩)
      · cases h
      · cases h
        exact hf

lemma throw_ok {e : ε} {s t : σ} {a : α} :
    (throw e : StateT σ (Except ε) α) s = .ok (a, t) ↔ False := by
  change Except.error e = Except.ok (a, t) ↔ _
  simp

lemma map_ok {e : Except ε α} {f : α → β} {b : β} :
    e.map f = .ok b ↔ ∃ a, e = .ok a ∧ f a = b := by
  cases e with
  | error e => simp [Except.map]
  | ok a => simp [Except.map]

lemma map_error {e : Except ε α} {f : α → β} {x : ε} : e.map f = .error x ↔ e = .error x := by
  cases e with
  | error e => simp [Except.map]
  | ok a => simp [Except.map]

def Agree (R : α → β → Prop) (m : StateT σ (Except ε) α) (m' : StateT σ (Except ε) β) : Prop :=
  ∀ s, (∃ e, m s = .error e ∧ m' s = .error e) ∨
    ∃ a b t, m s = .ok (a, t) ∧ m' s = .ok (b, t) ∧ R a b

namespace Agree

variable {γ δ : Type} {R R' : α → β → Prop} {Q : γ → δ → Prop}
  {m : StateT σ (Except ε) α} {m' : StateT σ (Except ε) β}

lemma pure {a : α} {b : β} (h : R a b) :
    Agree R (Pure.pure a : StateT σ (Except ε) α) (Pure.pure b) :=
  fun s => .inr ⟨a, b, s, rfl, rfl, h⟩

lemma mono (h : Agree R m m') (hr : ∀ a b, R a b → R' a b) : Agree R' m m' := by
  intro s
  rcases h s with he | ⟨a, b, t, ha, hb, hab⟩
  · exact .inl he
  · exact .inr ⟨a, b, t, ha, hb, hr a b hab⟩

lemma self (m : StateT σ (Except ε) α) :
    Agree (fun a b => a = b ∧ ∃ s t, m s = .ok (a, t)) m m := by
  intro s
  cases h : m s with
  | error e => exact .inl ⟨e, rfl, rfl⟩
  | ok p => exact .inr ⟨p.1, p.1, p.2, rfl, rfl, rfl, s, p.2, h⟩

lemma bind {f : α → StateT σ (Except ε) γ} {g : β → StateT σ (Except ε) δ} (h : Agree R m m')
    (hf : ∀ a b, R a b → Agree Q (f a) (g b)) : Agree Q (m >>= f) (m' >>= g) := by
  intro s
  rcases h s with ⟨e, hm, hm'⟩ | ⟨a, b, t, hm, hm', hab⟩
  · exact .inl ⟨e, bind_error.mpr (.inl hm), bind_error.mpr (.inl hm')⟩
  · rw [bind_of_ok hm, bind_of_ok hm']
    exact hf a b hab t

lemma bind_self {f : α → StateT σ (Except ε) γ} {g : α → StateT σ (Except ε) δ}
    (hf : ∀ a, (∃ s t, m s = .ok (a, t)) → Agree Q (f a) (g a)) : Agree Q (m >>= f) (m >>= g) := by
  apply (self m).bind
  rintro a b ⟨rfl, ha⟩
  exact hf a ha

end Agree

end Stencil.Outcome
