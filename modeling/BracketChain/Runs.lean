import Mathlib.Data.List.Basic

namespace BracketChain.Runs

variable {σ α : Type} {step : σ → α → σ → Prop}

/-- Finite runs with their history: each entry holds an action and the state
it was taken in. -/
inductive Run (step : σ → α → σ → Prop) (start : σ) : List (σ × α) → σ → Prop
  | nil : Run step start [] start
  | snoc {past : List (σ × α)} {s : σ} {a : α} {t : σ} (run : Run step start past s)
      (next : step s a t) : Run step start (past ++ [(s, a)]) t

theorem Run.invariant {P : List (σ × α) → σ → Prop} {start : σ} (init : P [] start)
    (keep : ∀ past s a t, Run step start past s → P past s → step s a t → P (past ++ [(s, a)]) t)
    {past : List (σ × α)} {s : σ} (run : Run step start past s) : P past s := by
  induction run with
  | nil => exact init
  | snoc run next ih => exact keep _ _ _ _ run ih next

theorem Run.append {start mid s : σ} {past more : List (σ × α)} (first : Run step start past mid)
    (second : Run step mid more s) : Run step start (past ++ more) s := by
  induction second with
  | nil => simpa using first
  | snoc _ next ih => simpa only [List.append_assoc] using ih.snoc next

theorem Run.one {s t : σ} {a : α} (next : step s a t) : Run step s [(s, a)] t :=
  Run.nil.snoc next

theorem Run.split {start s : σ} {past : List (σ × α)} (run : Run step start past s)
    {before after : List (σ × α)} {q : σ} {a : α} (h : past = before ++ (q, a) :: after) :
    Run step start before q ∧ ∃ t, step q a t ∧ Run step t after s := by
  induction run generalizing after with
  | nil => simp at h
  | @snoc past s b t run next ih =>
      rcases List.eq_nil_or_concat after with rfl | ⟨after, e, rfl⟩
      · obtain ⟨rfl, he⟩ := List.append_inj' h rfl
        obtain ⟨rfl, rfl⟩ : s = q ∧ b = a := by simpa using he
        exact ⟨run, t, next, .nil⟩
      · rw [List.concat_eq_append, ← List.cons_append, ← List.append_assoc] at h
        obtain ⟨hp, he⟩ := List.append_inj' h rfl
        obtain rfl : (s, b) = e := by simpa using he
        obtain ⟨hq, t', ht, hr⟩ := ih hp
        exact ⟨hq, t', ht, by simpa using hr.snoc next⟩

/-- A property of single steps that every entry of the history has. -/
def Always (P : σ × α → Prop) (past : List (σ × α)) : Prop := ∀ e ∈ past, P e

theorem always_snoc {P : σ × α → Prop} {past : List (σ × α)} {e : σ × α} :
    Always P (past ++ [e]) ↔ Always P past ∧ P e := by
  simp [Always, or_imp, forall_and]

/-- The states a run passes through: the ones its actions were taken in, and
the one it ends in. -/
def Visits (past : List (σ × α)) (s q : σ) : Prop := q = s ∨ ∃ a, (q, a) ∈ past

theorem visits_snoc {past : List (σ × α)} {s t q : σ} {a : α} :
    Visits (past ++ [(s, a)]) t q ↔ q = t ∨ Visits past s q := by
  constructor
  · rintro (h | ⟨b, hb⟩)
    · exact .inl h
    · rcases List.mem_append.1 hb with hb | hb
      · exact .inr (.inr ⟨b, hb⟩)
      · obtain ⟨rfl, rfl⟩ : q = s ∧ b = a := by simpa using hb
        exact .inr (.inl rfl)
  · rintro (h | h | ⟨b, hb⟩)
    · exact .inl h
    · exact .inr ⟨a, by simp [h]⟩
    · exact .inr ⟨b, by simp [hb]⟩

theorem Run.start_visited {start s : σ} {past : List (σ × α)} (run : Run step start past s) :
    Visits past s start := by
  induction run with
  | nil => exact .inl rfl
  | snoc _ _ ih => exact visits_snoc.2 (.inr ih)

/-- What a run has visited stays visited when it goes on. -/
theorem Run.visits_append {mid s q : σ} {past more : List (σ × α)} (run : Run step mid more s)
    (visited : Visits past mid q) : Visits (past ++ more) s q := by
  induction run with
  | nil => simpa using visited
  | snoc _ _ ih =>
      rw [← List.append_assoc]
      exact visits_snoc.2 (.inr ih)

/-- Every entry of the history was followed by a state that the run visits. -/
theorem Run.next_visited {start s q : σ} {past : List (σ × α)} {a : α} (run : Run step start past s)
    (entry : (q, a) ∈ past) : ∃ t, step q a t ∧ Visits past s t := by
  obtain ⟨before, after, rfl⟩ := List.append_of_mem entry
  obtain ⟨_, t, next, rest⟩ := run.split rfl
  refine ⟨t, next, ?_⟩
  rcases rest.start_visited with rfl | ⟨b, hb⟩
  · exact .inl rfl
  · exact .inr ⟨b, List.mem_append_right _ (List.mem_cons_of_mem _ hb)⟩

/-- A moment of a run: the history up to it, and the state it is in. -/
def Moment (past : List (σ × α)) (s : σ) (before : List (σ × α)) (q : σ) : Prop :=
  (before = past ∧ q = s) ∨ ∃ a after, past = before ++ (q, a) :: after

theorem Moment.visits {past before : List (σ × α)} {s q : σ} (moment : Moment past s before q) : Visits past s q := by
  rcases moment with ⟨_, rfl⟩ | ⟨a, after, rfl⟩
  · exact .inl rfl
  · exact .inr ⟨a, List.mem_append_right _ List.mem_cons_self⟩

theorem Visits.moment {past : List (σ × α)} {s q : σ} (visited : Visits past s q) : ∃ before, Moment past s before q := by
  rcases visited with rfl | ⟨a, mem⟩
  · exact ⟨past, .inl ⟨rfl, rfl⟩⟩
  · obtain ⟨before, after, split⟩ := List.append_of_mem mem
    exact ⟨before, .inr ⟨a, after, split⟩⟩

theorem Moment.mem {past before : List (σ × α)} {s q : σ} {e : σ × α} (moment : Moment past s before q) (h : e ∈ before) :
    e ∈ past := by
  rcases moment with ⟨rfl, _⟩ | ⟨a, after, rfl⟩
  · exact h
  · exact List.mem_append_left _ h

theorem Moment.run {start s q : σ} {past before : List (σ × α)} (moment : Moment past s before q)
    (run : Run step start past s) : Run step start before q := by
  rcases moment with ⟨rfl, rfl⟩ | ⟨a, after, split⟩
  · exact run
  · exact (run.split split).1

theorem Run.eq_start {start s : σ} (run : Run step start [] s) : s = start := by
  generalize none_ : ([] : List (σ × α)) = past at run
  cases run with
  | nil => rfl
  | snoc => simp at none_

/-- Every entry of the history leads to the next moment of the run. -/
theorem Run.next_moment {start s q : σ} {past before after : List (σ × α)} {a : α} (run : Run step start past s)
    (split : past = before ++ (q, a) :: after) : ∃ t, step q a t ∧ Moment past s (before ++ [(q, a)]) t := by
  obtain ⟨_, t, next, rest⟩ := run.split split
  refine ⟨t, next, ?_⟩
  cases after with
  | nil => exact .inl ⟨split.symm, rest.eq_start.symm⟩
  | cons e after =>
      obtain ⟨p, b⟩ := e
      have first : (p, b) :: after = [] ++ (p, b) :: after := rfl
      obtain rfl := (rest.split first).1.eq_start
      exact .inr ⟨b, after, by rw [split, List.append_assoc]; rfl⟩

/-- A property of states that holds at the start and that the allowed steps
keep holds in all states that a run of allowed steps visits. -/
theorem Run.visited {I : σ → Prop} {P : σ × α → Prop} {start s : σ} {past : List (σ × α)}
    (run : Run step start past s) (init : I start)
    (keep : ∀ past s a t, Run step start past s → I s → P (s, a) → step s a t → I t)
    (allowed : Always P past) : ∀ q, Visits past s q → I q := by
  induction run with
  | nil =>
      rintro q (rfl | ⟨_, h⟩)
      · exact init
      · cases h
  | @snoc past s a t run next ih =>
      obtain ⟨before, last⟩ := always_snoc.1 allowed
      intro q hq
      rcases visits_snoc.1 hq with rfl | hq
      · exact keep past s a q run (ih before s (.inl rfl)) last next
      · exact ih before q hq

end BracketChain.Runs
