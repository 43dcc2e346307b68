import BracketChain.Lives

namespace BracketChain.Matches

open Outcome Keys Records Accounts Start Settlement Envelope Refunds Program Layout View Lifecycle Refinement Lives

variable {rt : Runtime} {key : Pubkey} {clock : Clock}

theorem advance_eq (n : MatchNode) (i : Nat) (w : Pubkey) : MatchNode.advance n i w = { n with
    playerA := if i % 2 = 0 then w else n.playerA
    playerB := if i % 2 = 0 then n.playerB else w
    status := if (if i % 2 = 0 then w else n.playerA) ≠ default ∧ (if i % 2 = 0 then n.playerB else w) ≠ default
      then .active else n.status } := by
  unfold MatchNode.advance
  by_cases h : i % 2 = 0 <;> simp only [h, if_true, if_false] <;> split <;> rfl

theorem advance_incomplete {n : MatchNode} (i : Nat) (w : Pubkey) (h : n.status ≠ .completed) :
    (MatchNode.advance n i w).status ≠ .completed := by
  intro after
  rw [advance_eq] at after
  simp only [ite_eq_iff, reduceCtorEq, and_false, false_or] at after
  exact h after.2

section Written

variable {node : Slot → Option MatchNode} {slot p q : Slot} {m x y : MatchNode}

theorem update_isSome (hm : node slot = some m) (m' : MatchNode) (q : Slot) :
    (Function.update node slot (some m') q).isSome = (node q).isSome := by
  by_cases h : q = slot <;> simp [h, hm]

/-- What lies at a slot after the matches at `p` and then at `q` were written. -/
theorem written_cases (h : Function.update (Function.update node p (some x)) q (some y) slot = some m) :
    (slot = q ∧ m = y) ∨ (slot = p ∧ m = x) ∨ (slot ≠ q ∧ slot ≠ p ∧ node slot = some m) := by
  rw [Function.update_apply, Function.update_apply] at h
  split at h
  · exact .inl ⟨‹_›, (Option.some.inj h).symm⟩
  · split at h
    · exact .inr (.inl ⟨‹_›, (Option.some.inj h).symm⟩)
    · exact .inr (.inr ⟨‹_›, ‹_›, h⟩)

end Written

theorem place_of_notMem {ds : List MatchInitDescriptor} {slot : Slot} (node : Slot → Option MatchNode)
    (h : ∀ d ∈ ds, d.slot ≠ slot) : place key ds node slot = node slot := by
  induction ds generalizing node with
  | nil => rfl
  | cons d ds ih =>
      rw [List.forall_mem_cons] at h
      have step := ih (Function.update node d.slot (some (d.node key))) h.2
      rwa [Function.update_of_ne h.1.symm] at step

theorem place_of_mem {ds : List MatchInitDescriptor} {d : MatchInitDescriptor} (node : Slot → Option MatchNode)
    (distinct : (ds.map MatchInitDescriptor.slot).Nodup) (hd : d ∈ ds) :
    place key ds node d.slot = some (d.node key) := by
  induction ds generalizing node with
  | nil => simp at hd
  | cons e ds ih =>
      rw [List.map_cons, List.nodup_cons, List.mem_map] at distinct
      rcases List.mem_cons.1 hd with rfl | hd
      · have apart : ∀ f ∈ ds, f.slot ≠ d.slot := fun f hf hs => distinct.1 ⟨f, hf, hs⟩
        have step : place key ds (Function.update node d.slot (some (d.node key))) d.slot = _ :=
          place_of_notMem _ apart
        rwa [Function.update_self] at step
      · exact ih _ distinct.2 hd

theorem place_isSome {node : Slot → Option MatchNode} {ds : List MatchInitDescriptor}
    (distinct : (ds.map MatchInitDescriptor.slot).Nodup) (slot : Slot) : (place key ds node slot).isSome = true ↔
      (node slot).isSome = true ∨ ∃ d ∈ ds, d.slot = slot := by
  by_cases h : ∃ d ∈ ds, d.slot = slot
  · obtain ⟨d, hd, rfl⟩ := h
    simp only [place_of_mem node distinct hd, Option.isSome_some, true_iff]
    exact .inr ⟨d, hd, rfl⟩
  · rw [place_of_notMem node (fun d hd hs => h ⟨d, hd, hs⟩)]
    simp [h]

/-- All that a step may do to the match at one slot. -/
inductive NodeChange (rt : Runtime) (key : Pubkey) (clock : Clock) (b : Action) (v : TournamentView)
    (slot : Slot) : Option MatchNode → Prop
  | same : NodeChange rt key clock b v slot (v.node slot)
  | placed (c : StartTournament) (d : MatchInitDescriptor) {t t₁ : Tournament}
      (call : b = .call (.startTournament c)) (key_eq : c.tournament = key) (record : v.record = some t)
      (opens : Opens t t₁) (chunk : Chunk rt key v t₁ c.descriptors) (mem : d ∈ c.descriptors)
      (slot_eq : d.slot = slot) : NodeChange rt key clock b v slot (some (d.node key))
  | edited (ix : Instruction) (a : MatchAccounts) {t : Tournament} {m m' : MatchNode} (call : b = .call ix)
      (accounts : Instruction.edit? ix = some a) (key_eq : a.tournament = key)
      (address : a.matchAccount = .matchNode key slot) (record : v.record = some t) (node : v.node slot = some m)
      (edits : Edits t clock m ix m') : NodeChange rt key clock b v slot (some m')
  | finalized (ix : Instruction) (a : FinalizeAccounts) {t : Tournament} {m : MatchNode} {winner : Pubkey}
      {p' : Pubkey → Option Participant} (call : b = .call ix)
      (finalizes : Finalizes key clock v ix a slot t m winner p') :
      NodeChange rt key clock b v slot (some (MatchNode.complete m winner))
  | seated (ix : Instruction) (a : FinalizeAccounts) (child : Slot) {t : Tournament} {m n : MatchNode}
      {winner : Pubkey} {p' : Pubkey → Option Participant} (call : b = .call ix)
      (finalizes : Finalizes key clock v ix a child t m winner p') (inner : ¬ isFinal t m)
      (address : a.nextMatch = some (.matchNode key slot)) (node : v.node slot = some n)
      (round : n.round = m.round + 1) (index : n.matchIndex = m.matchIndex / 2) :
      NodeChange rt key clock b v slot (some (MatchNode.advance n m.matchIndex winner))
  | closed (c : CloseTournament) {t : Tournament} (call : b = .call (.closeTournament c))
      (key_eq : c.tournament = key) (record : v.record = some t) (ended : terminal t.status)
      (listed : .matchNode key slot ∈ c.remainingAccounts) : NodeChange rt key clock b v slot none

theorem without_nodeChange {b : Action} {v : TournamentView} {c : CloseTournament} {t : Tournament}
    {closed : List Pubkey} (call : b = .call (.closeTournament c)) (key_eq : c.tournament = key)
    (record : v.record = some t) (ended : terminal t.status) (listed : ∀ p ∈ closed, p ∈ c.remainingAccounts)
    (slot : Slot) : NodeChange rt key clock b v slot ((TournamentView.without key closed v).node slot) := by
  simp only [TournamentView.without]
  split
  · exact .closed c call key_eq record ended (listed _ ‹_›)
  · exact .same

theorem effect_node {b : Action} {v v' : TournamentView} (effect : Effect rt key clock b v v') (slot : Slot) :
    NodeChange rt key clock b v slot (v'.node slot) := by
  cases effect with
  | others | create | join | requestSeed | revealSeed | refund | partialCancel => exact .same
  | start c key_eq record _ opens chunk =>
      by_cases h : ∃ d ∈ c.descriptors, d.slot = slot
      · obtain ⟨d, hd, rfl⟩ := h
        simp only [place_of_mem v.node chunk.distinct hd]
        exact .placed c d rfl key_eq record opens chunk hd rfl
      · have out : ∀ d ∈ c.descriptors, d.slot ≠ slot := fun d hd hs => h ⟨d, hd, hs⟩
        simp only [place_of_notMem v.node out]
        exact .same
  | edit ix a at_ call key_eq address record node edits =>
      by_cases h : slot = at_
      · subst h
        simp only [Function.update_self]
        exact .edited ix a rfl call key_eq address record node edits
      · simp only [Function.update_of_ne h]
        exact .same
  | advance ix a child next finalizes inner next_address parent round index =>
      by_cases h : slot = next
      · subst h
        simp only [Function.update_self]
        exact .seated ix a child rfl finalizes inner next_address parent round index
      · simp only [Function.update_of_ne h]
        by_cases h' : slot = child
        · subst h'
          simp only [Function.update_self]
          exact .finalized ix a rfl finalizes
        · simp only [Function.update_of_ne h']
          exact .same
  | conclude ix a at_ u paid finalizes =>
      by_cases h : slot = at_
      · subst h
        simp only [Function.update_self]
        exact .finalized ix a rfl finalizes
      · simp only [Function.update_of_ne h]
        exact .same
  | closeChildren c key_eq closed record ended listed =>
      exact without_nodeChange rfl key_eq record ended listed slot
  | closeRoot c key_eq closed record vault ended listed =>
      exact without_nodeChange rfl key_eq record ended listed slot

/-- No chunk opens a match of a tournament that has ended. -/
theorem gone_step {b : Action} {v v' : TournamentView} {t : Tournament} {slot : Slot}
    (effect : Effect rt key clock b v v') (ht : v.record = some t) (ended : terminal t.status)
    (gone : v.node slot = none) : v'.node slot = none := by
  have change := effect_node effect slot
  generalize v'.node slot = o at change
  cases change with
  | same => exact gone
  | placed c d _ _ record opens =>
      obtain rfl := Option.some.inj (ht.symm.trans record)
      rcases (opens_status opens).1 with h | h <;> simp [h, terminal] at ended
  | edited _ _ _ _ _ _ _ node | seated _ _ _ _ _ _ _ node => cases gone.symm.trans node
  | finalized _ _ _ finalizes => cases gone.symm.trans finalizes.node
  | closed => rfl

/-- A match that had a property at the start still has it, or was closed for
good, if no step of the history takes the property from it. -/
theorem course_node {P : MatchNode → Prop} {start s : Ledger} {past : History} {slot : Slot} {m : MatchNode}
    (course : Course rt key start past s) (hm : (viewOf start key).node slot = some m) (init : P m)
    (keep : ∀ q b v' m m', (q, b) ∈ past → Wellformed q → Effect rt key q.clock b (viewOf q key) v' →
      (viewOf q key).node slot = some m → P m → v'.node slot = some m' → P m') :
    (∃ m', (viewOf s key).node slot = some m' ∧ P m') ∨
      (viewOf s key).node slot = none ∧ ∃ t, (viewOf s key).record = some t ∧ terminal t.status := by
  refine course.invariant (P := fun before s => before ⊆ past → (∃ m', (viewOf s key).node slot = some m' ∧ P m') ∨
    (viewOf s key).node slot = none ∧ ∃ t, (viewOf s key).record = some t ∧ terminal t.status) ?_ ?_
    (List.Subset.refl past)
  · intro _
    exact .inl ⟨m, hm, init⟩
  · intro before q b s' earlier ih step effect later sub
    obtain ⟨t, ht⟩ := earlier.record
    obtain ⟨t', ht'⟩ := later.record
    have status := effect_status effect ht ht'
    rcases ih (List.append_subset.1 sub).1 with ⟨n, hn, hP⟩ | ⟨gone, t₁, ht₁, ended⟩
    · cases hn' : (viewOf s' key).node slot with
      | some n' =>
          have entry : (q, b) ∈ past := sub (List.mem_append_right _ (List.mem_singleton_self _))
          exact .inl ⟨n', rfl, keep q b _ n n' entry earlier.wf effect hn hP hn'⟩
      | none =>
          refine .inr ⟨rfl, t', ht', ?_⟩
          have change := effect_node effect slot
          rw [hn'] at change
          generalize ho : none = o at change
          cases change with
          | same => cases ho.trans hn
          | closed c _ _ record ended =>
              obtain rfl := Option.some.inj (record.symm.trans ht)
              exact (status.terminal ended).symm ▸ ended
          | placed | edited | finalized | seated => cases ho
    · obtain rfl := Option.some.inj (ht.symm.trans ht₁)
      exact .inr ⟨gone_step effect ht ended gone, t', ht', (status.terminal ended).symm ▸ ended⟩

theorem node_slot {s : Ledger} {slot : Slot} {m : MatchNode} (wf : Wellformed s)
    (h : (viewOf s key).node slot = some m) : m.slot = slot ∧ m.tournament = key := by
  obtain ⟨hp, _⟩ := node_fits wf h
  obtain ⟨hk, hs⟩ : key = m.tournament ∧ slot = m.slot := by simpa using hp
  exact ⟨hs.symm, hk.symm⟩

/-- How a match that is there after a step has come about. -/
theorem step_node {s s' : Ledger} {b : Action} {slot : Slot} {m' : MatchNode} (wf : Wellformed s) (step : Step rt s b s')
    (hm' : s'.matchNode? (.matchNode key slot) = some m') :
    NodeChange rt key s.clock b (viewOf s key) slot (some m') := by
  have hk : key.isTournament = true := by
    obtain ⟨hp, home⟩ := node_fits (step_confined wf step).wf hm'
    obtain ⟨rfl, _⟩ : key = m'.tournament ∧ slot = m'.slot := by simpa using hp
    exact home
  have change := effect_node (step_effect wf hk step) slot
  rwa [show (viewOf s' key).node slot = some m' from hm'] at change

theorem edit_tournament {ix : Instruction} {c : MatchAccounts} (h : Instruction.edit? ix = some c) :
    (Action.call ix).tournament = some c.tournament := by
  cases ix <;> cases h <;> rfl

theorem finalize_tournament {ix : Instruction} {c : FinalizeAccounts} (h : Instruction.finalize? ix = some c) :
    (Action.call ix).tournament = some c.tournament := by
  cases ix <;> cases h <;> rfl

theorem finalize?_of_edit {ix : Instruction} {c : MatchAccounts} (h : Instruction.edit? ix = some c) :
    Instruction.finalize? ix = none := by
  cases ix <;> first | rfl | cases h

theorem refunding_calls {ix : Instruction} {t t' : Tournament} {a : CancelTournament}
    (h : Refunding t a t' ix) : Instruction.edit? ix = none ∧ Instruction.finalize? ix = none := by
  cases ix <;> first | exact ⟨rfl, rfl⟩ | cases h

theorem refunding_tournament {ix : Instruction} {t t' : Tournament} {a : CancelTournament}
    (h : Refunding t a t' ix) : (Action.call ix).tournament = some a.tournament := by
  cases ix with
  | cancelTournament | partialRefundChunk => exact congrArg (fun c => some (CancelTournament.tournament c)) h.1
  | _ => cases h

theorem edit_of_step {s s' : Ledger} {ix : Instruction} {c : MatchAccounts} (wf : Wellformed s)
    (call : Instruction.edit? ix = some c) (step : Step rt s (.call ix) s') :
    ∃ t slot m m', c.matchAccount = .matchNode c.tournament slot ∧
      (viewOf s c.tournament).record = some t ∧ (viewOf s c.tournament).node slot = some m ∧
      (viewOf s' c.tournament).node slot = some m' ∧ Edits t s.clock m ix m' := by
  have effect := (step_simulated wf (edit_tournament call) step).effect
  generalize viewOf s c.tournament = v, viewOf s' c.tournament = v' at effect
  cases effect with
  | others _ other => exact absurd (edit_tournament call) other
  | @edit _ _ a slot t m m' call' _ address record node edits =>
      obtain rfl := Option.some.inj (call.symm.trans call')
      exact ⟨t, slot, m, m', address, record, node, Function.update_self .., edits⟩
  | advance _ _ _ _ finalizes | conclude _ _ _ _ _ finalizes =>
      exact absurd finalizes.call (by simp [finalize?_of_edit call])
  | refund _ _ _ _ _ _ refunding => exact absurd call (by simp [(refunding_calls refunding).1])
  | _ => cases call

theorem finalize_of_step {s s' : Ledger} {ix : Instruction} {c : FinalizeAccounts} (wf : Wellformed s)
    (call : Instruction.finalize? ix = some c) (step : Step rt s (.call ix) s') :
    ∃ slot t m winner p', Finalizes c.tournament s.clock (viewOf s c.tournament) ix c slot t m winner p' ∧
      ∀ p, c.nextMatch = some p → ∃ next n, p = .matchNode c.tournament next ∧
        (viewOf s c.tournament).node next = some n ∧ n.round = m.round + 1 ∧
          n.matchIndex = m.matchIndex / 2 := by
  have effect := (step_simulated wf (finalize_tournament call) step).effect
  generalize hv : viewOf s c.tournament = v, viewOf s' c.tournament = v' at effect
  cases effect with
  | others _ other => exact absurd (finalize_tournament call) other
  | edit _ _ _ call' => exact absurd call (by simp [finalize?_of_edit call'])
  | @advance _ _ a slot next t m n winner p' finalizes _ address parent round index =>
      obtain rfl := Option.some.inj (call.symm.trans finalizes.call)
      refine ⟨slot, t, m, winner, p', finalizes, fun p hp => ?_⟩
      exact ⟨next, n, Option.some.inj (hp.symm.trans address), parent, round, index⟩
  | @conclude _ _ a slot t m winner p' _ _ finalizes _ no_next =>
      obtain rfl := Option.some.inj (call.symm.trans finalizes.call)
      exact ⟨slot, t, m, winner, p', finalizes, fun p hp => by rw [no_next] at hp; cases hp⟩
  | refund _ _ _ _ _ _ refunding => exact absurd call (by simp [(refunding_calls refunding).2])
  | _ => cases call

/-- The player set and outcome of a match and the proposal on it, apart from
a dispute. -/
structure SameResult (m m' : MatchNode) : Prop where
  status : m'.status = m.status
  playerA : m'.playerA = m.playerA
  playerB : m'.playerB = m.playerB
  winner : m'.winner = m.winner
  proposalSource : m'.proposalSource = m.proposalSource
  proposer : m'.proposer = m.proposer
  proposedWinner : m'.proposedWinner = m.proposedWinner
  proposedAt : m'.proposedAt = m.proposedAt

theorem SameResult.refl (m : MatchNode) : SameResult m m := by constructor <;> rfl

theorem SameResult.trans {m m' m'' : MatchNode} (h : SameResult m m') (h' : SameResult m' m'') :
    SameResult m m'' :=
  ⟨h'.status.trans h.status, h'.playerA.trans h.playerA, h'.playerB.trans h.playerB, h'.winner.trans h.winner,
    h'.proposalSource.trans h.proposalSource, h'.proposer.trans h.proposer,
    h'.proposedWinner.trans h.proposedWinner, h'.proposedAt.trans h.proposedAt⟩

theorem edits_status {t : Tournament} {m m' : MatchNode} {ix : Instruction} (h : Edits t clock m ix m') :
    m'.status = m.status := by
  cases h <;> rfl

theorem edits_sameResult {t : Tournament} {m m' : MatchNode} {ix : Instruction} (h : Edits t clock m ix m')
    (settled : m.status ≠ .active) : SameResult m m' := by
  cases h with
  | propose _ _ _ active | proposeOracle _ _ _ _ active | commit _ _ _ _ _ _ _ active => exact absurd active settled
  | dispute | bind => constructor <;> rfl

end BracketChain.Matches
