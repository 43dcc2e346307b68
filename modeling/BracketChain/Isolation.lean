import BracketChain.Scripts

namespace BracketChain.Isolation

open Outcome Keys Records Accounts Registration Refunds Program Runs Layout View Confinement Refinement Scripts

/-- Everything that lies in the name of a tournament is as before, but for
tokens that its vault may have received. -/
structure Untouched (key : Pubkey) (s s' : Ledger) : Prop where
  record : s'.tournament? key = s.tournament? key
  node : ∀ p m, m.tournament = key → (s'.matchNode? p = some m ↔ s.matchNode? p = some m)
  participant : ∀ p x, x.tournament = key → (s'.participant? p = some x ↔ s.participant? p = some x)
  vault : ∀ v, s.token? (.vault key) = some v → ∃ k, s'.token? (.vault key) = some (TokenAccount.plus v k)

variable {rt : Runtime} {s s' t : Ledger} {own : Option Pubkey} {key : Pubkey}

theorem Untouched.refl (key : Pubkey) (s : Ledger) : Untouched key s s := by
  refine ⟨rfl, fun _ _ _ => .rfl, fun _ _ _ => .rfl, fun v hv => ⟨0, ?_⟩⟩
  exact hv

theorem Untouched.trans (h : Untouched key s t) (h' : Untouched key t s') : Untouched key s s' := by
  refine ⟨h'.record.trans h.record, ?_, ?_, ?_⟩
  · intro p m home
    exact (h'.node p m home).trans (h.node p m home)
  · intro p x home
    exact (h'.participant p x home).trans (h.participant p x home)
  · intro v hv
    obtain ⟨j, hj⟩ := h.vault v hv
    obtain ⟨k, hk⟩ := h'.vault _ hj
    refine ⟨j + k, hk.trans ?_⟩
    rw [TokenAccount.plus, TokenAccount.plus, TokenAccount.plus, Nat.add_assoc]

theorem node_iff (wf : Wellformed s) {p : Pubkey} {m : MatchNode} (home : m.tournament = key) :
    s.matchNode? p = some m ↔ p = .matchNode key m.slot ∧ (viewOf s key).node m.slot = some m := by
  constructor
  · intro hm
    obtain rfl : p = .matchNode key m.slot := home ▸ (node_fits wf hm).1
    exact ⟨rfl, hm⟩
  · rintro ⟨rfl, hm⟩
    exact hm

theorem participant_iff (wf : Wellformed s) {p : Pubkey} {x : Participant} (home : x.tournament = key) :
    s.participant? p = some x ↔ p = .participant key x.wallet ∧ (viewOf s key).participant x.wallet = some x := by
  constructor
  · intro hx
    obtain rfl : p = .participant key x.wallet := home ▸ (participant_fits wf hx).1
    exact ⟨rfl, hx⟩
  · rintro ⟨rfl, hx⟩
    exact hx

/-- Nothing lies in the name of an address that is not a tournament's. -/
theorem nothing_at (wf : Wellformed s) (hk : ¬ key.isTournament = true) : s.tournament? key = none ∧
    (∀ p m, m.tournament = key → s.matchNode? p ≠ some m) ∧
    (∀ p x, x.tournament = key → s.participant? p ≠ some x) ∧ s.token? (.vault key) = none := by
  refine ⟨?_, ?_, ?_, ?_⟩
  · apply Option.eq_none_iff_forall_ne_some.2
    intro t ht
    exact hk (isTournament_of_record wf ht)
  · rintro p m rfl hm
    exact hk (node_fits wf hm).2
  · rintro p x rfl hx
    exact hk (participant_fits wf hx).2.1
  · apply Option.eq_none_iff_forall_ne_some.2
    intro v hv
    obtain ⟨n, hn⟩ | ⟨_, hv', _⟩ := token_fits wf hv
    · cases hn
    · exact hk (vault_owner wf hv ▸ hv')

theorem confined_untouched (wf : Wellformed s) (h : Confined own s s') (apart : own ≠ some key) :
    Untouched key s s' := by
  by_cases hk : key.isTournament = true
  · obtain ⟨k, hv⟩ := h.others key hk apart
    refine ⟨congrArg TournamentView.record hv, ?_, ?_, ?_⟩
    · intro p m home
      rw [node_iff wf home, node_iff h.wf home, hv]
      rfl
    · intro p x home
      rw [participant_iff wf home, participant_iff h.wf home, hv]
      rfl
    · intro v vault
      refine ⟨k, (congrArg TournamentView.vault hv).trans ?_⟩
      change Option.map _ (s.token? (.vault key)) = _
      rw [vault]
      rfl
  · obtain ⟨record, node, participant, vault⟩ := nothing_at wf hk
    obtain ⟨record', node', participant', _⟩ := nothing_at h.wf hk
    refine ⟨record'.trans record.symm, ?_, ?_, ?_⟩
    · intro p m home
      exact iff_of_false (node' p m home) (node p m home)
    · intro p x home
      exact iff_of_false (participant' p x home) (participant p x home)
    · intro v hv
      cases vault.symm.trans hv

/-- Whatever accounts it is given, a call on one tournament leaves the others
alone. -/
theorem tournaments_isolated {A B : Pubkey} {ix : Instruction} (reachable : Reachable rt s)
    (own : ix.tournament = some A) (apart : A ≠ B) (step : Step rt s (.call ix) s') : Untouched B s s' := by
  have wf := reachable_wellformed reachable
  apply confined_untouched wf (step_confined wf step)
  intro same
  exact apart (Option.some.inj (own.symm.trans same))

/-- Over a whole run, a tournament that no call is made on is left alone. -/
theorem run_untouched {start : Ledger} {past : History} (reachable : Reachable rt start)
    (run : Run rt start past s) (apart : Always (fun e => e.2.tournament ≠ some key) past) :
    Untouched key start s := by
  induction run with
  | nil => exact .refl key start
  | @snoc past s b t run next ih =>
      obtain ⟨before, last⟩ := always_snoc.1 apart
      have wf := reachable_wellformed (reachable_run reachable run)
      exact (ih before).trans (confined_untouched wf (step_confined wf next) last)

def otherTournament : CreateTournament := { sampleTournament with name := [66] }

/-- Two tournaments with a participant each. -/
def sideBySide : List Action :=
  [sampleInit, .call (.createTournament sampleTournament), .call (.createTournament otherTournament),
    joinAs 2 sampleTournament.key, joinAs 2 otherTournament.key]

def cancelFirst : Instruction := .cancelTournament ⟨.key 1, sampleTournament.key, some (.key 10),
  [.participant sampleTournament.key (.key 2), .key 11]⟩

theorem cancelFirst_isolated : ∃ s s' v, Step sampleRuntime s (.call cancelFirst) s' ∧
    s.token? (.vault otherTournament.key) = some v ∧ v.amount = 57 ∧ Untouched otherTournament.key s s' :=
  ⟨after sampleRuntime sampleGenesis sideBySide,
    after sampleRuntime (after sampleRuntime sampleGenesis sideBySide) [.call cancelFirst], _, rfl, rfl, rfl,
    tournaments_isolated (script_reachable sampleGenesis_genesis _)
      (show cancelFirst.tournament = some sampleTournament.key from rfl) (by decide) rfl⟩

end BracketChain.Isolation
