import BracketChain.Bookkeeping

namespace BracketChain.Enrolment

open Outcome Keys Records Accounts Registration Start Settlement Envelope Refunds Program Runs Layout View Lifecycle
  Refinement Lives Bookkeeping

/-- No two participants carry the same number below `n`. -/
def Unique (participant : Pubkey → Option Participant) (n : Nat) : Prop :=
  ∀ i < n, ∀ w w', Carries participant w i → Carries participant w' i → w = w'

/-- The participants of a tournament that has not ended: those who joined, in
order, next to whoever `v₀` had left open. -/
structure Enrolled (v₀ v : TournamentView) (joined : List Pubkey) (t : Tournament) : Prop where
  nodup : joined.Nodup
  count : t.participantCount = joined.length
  entered : ∀ w x, v.participant w = some x → v₀.participant w = none → joined[x.seedIndex]? = some w
  present : ∀ w ∈ joined, (v.participant w).isSome = true
  new : ∀ w ∈ joined, v₀.participant w = none
  kept : ∀ w, (v₀.participant w).isSome = true → (v.participant w).isSome = true

section Steps

variable {rt : Runtime} {key : Pubkey} {clock : Clock} {b : Action} {v₀ v v' : TournamentView} {joined : List Pubkey}
  {t t' : Tournament}

theorem Enrolled.keep (h : Enrolled v₀ v joined t) (count : t'.participantCount = t.participantCount)
    (roles : KeepsRoles v.participant v'.participant) : Enrolled v₀ v' joined t' where
  nodup := h.nodup
  count := count.trans h.count
  entered w x hx none_ := by
    obtain ⟨y, hy, hs, _⟩ := roles.some hx
    exact hs ▸ h.entered w y hy none_
  present w hw := (roles.isSome w).trans (h.present w hw)
  new := h.new
  kept w hw := (roles.isSome w).trans (h.kept w hw)

theorem Enrolled.join (h : Enrolled v₀ v joined t) {w : Pubkey} {x : Participant} (absent : v.participant w = none)
    (number : x.seedIndex = t.participantCount) (participant : v'.participant = Function.update v.participant w (some x))
    (count : t'.participantCount = t.participantCount + 1) : Enrolled v₀ v' (joined ++ [w]) t' := by
  have fresh : w ∉ joined := fun hw => by simpa [absent] using h.present w hw
  have new : v₀.participant w = none := by
    by_contra hne
    have kept := h.kept w (Option.ne_none_iff_isSome.1 hne)
    simp [absent] at kept
  refine ⟨?_, by simp [count, h.count], fun q y hy none_ => ?_, fun q hq => ?_, fun q hq => ?_, fun q hq => ?_⟩
  · refine List.nodup_append.2 ⟨h.nodup, by simp, fun q hq q' hq' he => fresh ?_⟩
    rwa [← List.mem_singleton.1 hq', ← he]
  · rw [participant] at hy
    by_cases hq : q = w
    · subst hq
      obtain rfl : x = y := by simpa using hy
      simp [number, h.count]
    · have old := h.entered q y (by simpa [hq] using hy) none_
      exact List.getElem?_append_left (List.getElem?_eq_some_iff.1 old).1 ▸ old
  · rw [participant]
    by_cases hq' : q = w
    · simp [hq']
    · simpa [hq'] using h.present q (by simpa [hq'] using hq)
  · rcases List.mem_append.1 hq with hq | hq
    · exact h.new q hq
    · exact List.mem_singleton.1 hq ▸ new
  · rw [participant]
    by_cases hq' : q = w
    · simp [hq']
    · simpa [hq'] using h.kept q hq

theorem Enrolled.number (h : Enrolled v₀ v joined t) {w : Pubkey} (hw : w ∈ joined) :
    ∃ i < t.participantCount, joined[i]? = some w ∧ Carries v.participant w i := by
  obtain ⟨x, hx⟩ := Option.isSome_iff_exists.1 (h.present w hw)
  have entered := h.entered w x hx (h.new w hw)
  exact ⟨x.seedIndex, h.count ▸ (List.getElem?_eq_some_iff.1 entered).1, entered, x, hx, rfl⟩

theorem Enrolled.holder (h : Enrolled v₀ v joined t) {i : Nat} (hi : i < t.participantCount) :
    ∃ w ∈ joined, Carries v.participant w i := by
  have bound : i < joined.length := h.count ▸ hi
  obtain ⟨j, hj, at_, carries⟩ := h.number (List.getElem_mem bound)
  obtain rfl : i = j := (List.getElem?_inj bound h.nodup).1 ((List.getElem?_eq_getElem bound).trans at_.symm)
  exact ⟨_, List.getElem_mem bound, carries⟩

theorem Enrolled.alone (h : Enrolled v₀ v joined t) {i : Nat} {w x : Pubkey} (hw : joined[i]? = some w)
    (carries : Carries v.participant x i) (new : v₀.participant x = none) : x = w := by
  obtain ⟨y, hy, rfl⟩ := carries
  exact Option.some.inj ((h.entered x y hy new).symm.trans hw)

theorem enrolled_step (before : ¬ terminal t.status → Enrolled v₀ v joined t) (effect : Effect rt key clock b v v')
    (ht : v.record = some t) (ht' : v'.record = some t') (live : ¬ terminal t'.status) :
    Enrolled v₀ v' (joined ++ joinedBy key b) t' := by
  have open_ : ¬ terminal t.status := fun ended => live ((effect_status effect ht ht').terminal ended ▸ ended)
  have h := before open_
  have same {t₁ : Tournament} (h₁ : v.record = some t₁) : t = t₁ := Option.some.inj (ht.symm.trans h₁)
  have quiet (none_ : joinedBy key b = []) (count : t'.participantCount = t.participantCount)
      (roles : KeepsRoles v.participant v'.participant) : Enrolled v₀ v' (joined ++ joinedBy key b) t' := by
    rw [none_, List.append_nil]
    exact h.keep count roles
  cases effect with
  | others k other =>
      obtain rfl := same ht'
      exact quiet (joinedBy_other other) rfl (.refl _)
  | create _ _ _ unopened => simp [ht] at unopened
  | join c key_eq _ _ record _ absent =>
      obtain rfl := same record
      obtain rfl := Option.some.inj ht'
      rw [joinedBy, if_pos key_eq]
      exact h.join absent rfl rfl rfl
  | requestSeed _ _ record | revealSeed _ _ _ record =>
      obtain rfl := same record
      obtain rfl := Option.some.inj ht'
      exact quiet rfl rfl (.refl _)
  | start _ _ record _ opens _ tallied bound =>
      obtain rfl := same record
      obtain rfl := Option.some.inj ht'
      refine quiet rfl ?_ (.refl _)
      rw [tally_ok bound tallied, ← (opens_kept opens).1]
  | edit _ _ _ call =>
      obtain rfl := same ht'
      exact quiet (joinedBy_edit call) rfl (.refl _)
  | advance _ _ _ _ finalizes =>
      obtain rfl := same finalizes.record
      obtain rfl := Option.some.inj ht'
      exact quiet (joinedBy_finalize finalizes.call) rfl (finalizes_keepsRoles finalizes)
  -- the rest leads to an ended tournament, or needs one
  | conclude | partialCancel =>
      obtain rfl := Option.some.inj ht'
      simp [terminal, Tournament.concluded] at live
  | refund _ _ _ _ record _ refunding =>
      obtain rfl := Option.some.inj ht'
      obtain ⟨status, rfl, _, ended⟩ := refunding_status refunding
      split at live <;> exact absurd ended live
  | closeChildren _ _ _ record ended =>
      obtain rfl := same record
      exact absurd ended open_
  | closeRoot => cases ht'

end Steps

section Life

variable {rt : Runtime} {a : CreateTournament} {born start s : Ledger} {past : History} {t : Tournament}

theorem life_enrolled (life : Life rt a born start past s) (ht : s.tournament? a.key = some t)
    (live : ¬ terminal t.status) : Enrolled (viewOf born a.key) (viewOf s a.key) (joins a.key past) t := by
  refine life.invariant (P := fun past s => ∀ t, s.tournament? a.key = some t → ¬ terminal t.status →
    Enrolled (viewOf born a.key) (viewOf s a.key) (joins a.key past) t) ?_ ?_ t ht live
  · intro t ht _
    obtain rfl := Option.some.inj (ht.symm.trans life.start_record)
    rw [life.start_view.2.2]
    exact ⟨.nil, rfl, fun w x hx none_ => by simp [none_] at hx, by simp [joins], by simp [joins], fun w hw => hw⟩
  · intro past s b s' earlier ih step effect later t' ht' live
    obtain ⟨t, ht⟩ := earlier.record
    rw [joins_snoc]
    exact enrolled_step (ih t ht) effect ht ht' live

/-- In a fresh tournament participants carry the numbers they joined with, for
as long as their accounts stay open. -/
theorem life_entered (life : Life rt a born start past s) (fresh : Fresh a.key born) {w : Pubkey} {x : Participant}
    (hx : (viewOf s a.key).participant w = some x) : (joins a.key past)[x.seedIndex]? = some w ∧ w ≠ default := by
  obtain ⟨refunded, sent, t, kept⟩ := life_fresh_books life fresh
  refine ⟨?_, participant_real life.wf (Option.isSome_iff_exists.2 ⟨x, hx⟩)⟩
  have entry := kept.books.entered w x hx
  by_cases hj : w ∈ joins a.key past
  · exact (entry.numbered hj).1
  · have left := (entry.leftover hj).2
    rw [show (viewOf born a.key).participant w = none from fresh.participant w] at left
    cases left

theorem life_unique (life : Life rt a born start past s) (fresh : Fresh a.key born) (n : Nat) :
    Unique (viewOf s a.key).participant n := by
  rintro i _ w w' ⟨x, hx, rfl⟩ ⟨x', hx', hi⟩
  exact Option.some.inj ((life_entered life fresh hx).1.symm.trans (hi ▸ (life_entered life fresh hx').1))

end Life

end BracketChain.Enrolment
