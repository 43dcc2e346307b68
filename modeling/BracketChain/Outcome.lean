import Mathlib.Logic.Basic

namespace BracketChain.Outcome

variable {ε α β : Type}

/-- Continue only under a decidable condition. -/
def require (c : Prop) [Decidable c] (e : ε) : Except ε Unit :=
  if c then .ok () else .error e

def orThrow (o : Option α) (e : ε) : Except ε α :=
  match o with
  | some a => .ok a
  | none => .error e

/-- Addition that fails past the largest value of its type. -/
def checkedAdd (limit a b : Nat) : Option Nat := if a + b ≤ limit then some (a + b) else none

theorem bind_ok (x : Except ε α) (f : α → Except ε β) (b : β) :
    (x >>= f) = .ok b ↔ ∃ a, x = .ok a ∧ f a = .ok b := by
  cases x <;> simp [bind, Except.bind]

theorem pure_ok (a b : α) : (pure a : Except ε α) = .ok b ↔ a = b := by
  simp [pure, Except.pure]

theorem require_ok (c : Prop) [Decidable c] (e : ε) (u : Unit) : require c e = .ok u ↔ c := by
  by_cases h : c <;> simp [require, h]

theorem orThrow_ok (o : Option α) (e : ε) (a : α) : orThrow o e = .ok a ↔ o = some a := by
  cases o <;> simp [orThrow]

theorem checkedAdd_eq_some (limit a b c : Nat) :
    checkedAdd limit a b = some c ↔ a + b ≤ limit ∧ c = a + b := by
  by_cases h : a + b ≤ limit <;> simp [checkedAdd, h, eq_comm]

theorem ite_ok (c : Prop) [Decidable c] (x y : Except ε α) (a : α) :
    (if c then x else y) = .ok a ↔ (c ∧ x = .ok a) ∨ (¬ c ∧ y = .ok a) := by
  by_cases h : c <;> simp [h]

theorem bind_error (x : Except ε α) (f : α → Except ε β) (e : ε) :
    (x >>= f) = .error e ↔ x = .error e ∨ ∃ a, x = .ok a ∧ f a = .error e := by
  cases x <;> simp [bind, Except.bind]

theorem require_error (c : Prop) [Decidable c] (e e' : ε) :
    require c e = .error e' ↔ ¬ c ∧ e = e' := by
  by_cases h : c <;> simp [require, h]

theorem orThrow_error (o : Option α) (e e' : ε) : orThrow o e = .error e' ↔ o = none ∧ e = e' := by
  cases o <;> simp [orThrow]

theorem pure_error (a : α) (e : ε) : (pure a : Except ε α) ≠ .error e := by
  intro h
  cases h

theorem ite_error (c : Prop) [Decidable c] (x y : Except ε α) (e : ε) :
    (if c then x else y) = .error e ↔ (c ∧ x = .error e) ∨ (¬ c ∧ y = .error e) := by
  by_cases h : c <;> simp [h]

/-- A list of effectful updates applied in order. -/
def each {σ ι : Type} (f : σ → ι → Except ε σ) : σ → List ι → Except ε σ
  | s, [] => .ok s
  | s, i :: is => f s i >>= fun s => each f s is

theorem each_cons_ok {σ ι : Type} (f : σ → ι → Except ε σ) (s t : σ) (i : ι) (is : List ι) :
    each f s (i :: is) = .ok t ↔ ∃ u, f s i = .ok u ∧ each f u is = .ok t :=
  bind_ok _ _ _

theorem each_append {σ ι : Type} (f : σ → ι → Except ε σ) (s : σ) (is js : List ι) :
    each f s (is ++ js) = each f s is >>= fun t => each f t js := by
  induction is generalizing s with
  | nil => rfl
  | cons i is ih =>
      rw [List.cons_append, each, each]
      cases f s i with
      | ok t => exact ih t
      | error e => rfl

theorem each_error {σ ι : Type} {f : σ → ι → Except ε σ} {is : List ι} {s : σ} {e : ε}
    (h : each f s is = .error e) : ∃ before i after m, is = before ++ i :: after ∧
      each f s before = .ok m ∧ f m i = .error e := by
  induction is generalizing s with
  | nil => cases h
  | cons i is ih =>
      rcases (bind_error _ _ _).1 h with h | ⟨t, ht, h⟩
      · exact ⟨[], i, is, s, rfl, rfl, h⟩
      · obtain ⟨before, j, after, m, rfl, hm, hj⟩ := ih h
        exact ⟨i :: before, j, after, m, rfl, (each_cons_ok f s m i before).2 ⟨t, ht, hm⟩, hj⟩

/-- A reflexive and transitive relation kept by every single update is kept
by the whole list of them. -/
theorem each_related {σ ι : Type} {f : σ → ι → Except ε σ} {R : σ → σ → Prop}
    (refl : ∀ s, R s s) (trans : ∀ s t u, R s t → R t u → R s u)
    (step : ∀ s i t, f s i = .ok t → R s t) (is : List ι) (s t : σ)
    (h : each f s is = .ok t) : R s t := by
  induction is generalizing s with
  | nil =>
      obtain rfl : s = t := by simpa [each] using h
      exact refl s
  | cons i is ih =>
      obtain ⟨u, hu, ht⟩ := (each_cons_ok f s t i is).1 h
      exact trans _ _ _ (step s i u hu) (ih u ht)

/-- Every update of a list that succeeds was made in a state that the updates
before it kept. -/
theorem each_visits {σ ι : Type} {f : σ → ι → Except ε σ} {I : σ → Prop}
    (keep : ∀ s i t, I s → f s i = .ok t → I t) {is : List ι} {s t : σ} (init : I s) (h : each f s is = .ok t) :
    ∀ i ∈ is, ∃ m u, I m ∧ f m i = .ok u := by
  induction is generalizing s with
  | nil => exact nofun
  | cons i is ih =>
      obtain ⟨u, hu, rest⟩ := (each_cons_ok f s t i is).1 h
      exact List.forall_mem_cons.2 ⟨⟨s, u, init, hu⟩, ih (keep s i u init hu) rest⟩

/-- What each update brings about, and no later one undoes, holds for the whole
list in the end. -/
theorem each_settles {σ ι : Type} {f : σ → ι → Except ε σ} {Q : ι → σ → Prop} (now : ∀ s i t, f s i = .ok t → Q i t)
    (keep : ∀ s i j t, Q j s → f s i = .ok t → Q j t) {is : List ι} {s t : σ} (h : each f s is = .ok t) :
    ∀ i ∈ is, Q i t := by
  induction is generalizing s with
  | nil => simp
  | cons i is ih =>
      obtain ⟨u, hu, rest⟩ := (each_cons_ok f s t i is).1 h
      apply List.forall_mem_cons.2 ⟨?_, ih rest⟩
      exact each_related (R := fun u t => Q i u → Q i t) (fun _ => id) (fun _ _ _ first second => second ∘ first)
        (fun u j t h held => keep u j i t held h) is u t rest (now s i u hu)

theorem bind_ok_congr {x : Except ε α} {f g : α → Except ε β} (h : ∀ a, x = .ok a → f a = g a) :
    (x >>= f) = (x >>= g) := by
  cases x with
  | ok a => exact h a rfl
  | error e => rfl

theorem map_bind {γ : Type} (x : Except ε α) (f : α → Except ε β) (k : β → γ) :
    (x >>= f).map k = x >>= fun a => (f a).map k := by
  cases x <;> rfl

theorem bind_map {γ : Type} (x : Except ε α) (k : α → β) (f : β → Except ε γ) :
    (x.map k >>= f) = x >>= fun a => f (k a) := by
  cases x <;> rfl

/-- Two updates that agree up to a change of the state agree so on lists. -/
theorem each_map {σ ι : Type} {f g : σ → ι → Except ε σ} {k : σ → σ} {I : σ → Prop} {J : ι → Prop}
    (keep : ∀ s i t, I s → J i → f s i = .ok t → I t) (same : ∀ s i, I s → J i → g (k s) i = (f s i).map k)
    {is : List ι} {s : σ} (init : I s) (all : ∀ i ∈ is, J i) : each g (k s) is = (each f s is).map k := by
  induction is generalizing s with
  | nil => rfl
  | cons i is ih =>
      obtain ⟨hi, rest⟩ := List.forall_mem_cons.1 all
      rw [each, each, same s i init hi, bind_map, map_bind]
      exact bind_ok_congr fun t ht => ih (keep s i t init hi ht) rest

end BracketChain.Outcome
