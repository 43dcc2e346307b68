import BracketChain.MatchEffects

namespace BracketChain.FinalizeEffects

open Outcome Keys Records Accounts Settlement Program Layout View Confinement Lifecycle RegistrationEffects
  MatchEffects

variable {rt : Runtime} {s s' : Ledger}

structure Loads (s : Ledger) (a : FinalizeAccounts) (l : Loaded) : Prop where
  record : s.tournament? a.tournament = some l.t
  matchAccount : s.matchNode? a.matchAccount = some l.m
  address : a.matchAccount = .matchNode a.tournament l.m.slot
  home : l.m.tournament = a.tournament
  next : loadNext s a.nextMatch = .ok l.next
  vault : s.token? (.vault a.tournament) = some l.vault

theorem loadFinalize_ok {a : FinalizeAccounts} {l : Loaded} (h : loadFinalize s a = .ok l) : Loads s a l := by
  simp only [loadFinalize, bind_ok, pure_ok, Ledger.loadTournament_ok, Ledger.loadMatch_ok,
    Ledger.loadVault_ok] at h
  obtain ⟨t, ⟨ht, _⟩, m, ⟨hm, ha, hh⟩, next, hn, _, _, vault, ⟨hv, _⟩, rfl⟩ := h
  exact ⟨ht, hm, ha, hh, hn, hv⟩

theorem loadNext_some {p : Option Pubkey} {n : MatchNode} (h : loadNext s p = .ok (some n)) :
    ∃ q, p = some q ∧ s.matchNode? q = some n := by
  cases p with
  | none => simp [loadNext] at h
  | some q =>
      simp only [loadNext, bind_ok, orThrow_ok, pure_ok, Option.some.injEq] at h
      obtain ⟨n', hn, rfl⟩ := h
      exact ⟨q, rfl, hn⟩

theorem loadNext_none {p : Option Pubkey} (h : loadNext s p = .ok none) : p = none := by
  cases p with
  | none => rfl
  | some q => simp [loadNext, bind_ok, pure_ok, -bind_pure_comp] at h

theorem advanceWinner_ok {next : Option MatchNode} {key winner : Pubkey} {m n' : MatchNode}
    (h : advanceWinner next key m winner = .ok n') : ∃ n, next = some n ∧ n.tournament = key ∧
      n.round = m.round + 1 ∧ n.matchIndex = m.matchIndex / 2 ∧ n' = MatchNode.advance n m.matchIndex winner := by
  simp only [advanceWinner, bind_ok, orThrow_ok, require_ok, pure_ok] at h
  obtain ⟨n, hn, _, hk, _, hr, _, hi, rfl⟩ := h
  exact ⟨n, hn, hk, hr, hi, rfl⟩

theorem advance_slot (n : MatchNode) (index : Nat) (winner : Pubkey) :
    (MatchNode.advance n index winner).tournament = n.tournament ∧
      (MatchNode.advance n index winner).slot = n.slot := by
  unfold MatchNode.advance
  dsimp only
  split_ifs <;> exact ⟨rfl, rfl⟩

/-- Record and match written back over whatever the vault went through. -/
def wrote (a : FinalizeAccounts) (s : Ledger) (t : Tournament) (m : MatchNode) : Ledger :=
  (s.setAccount a.tournament (.tournament t)).setAccount a.matchAccount (.matchNode m)

theorem writeBack_last (a : FinalizeAccounts) (s : Ledger) (t : Tournament) (m : MatchNode) :
    writeBack a ⟨s, t, m, none⟩ = wrote a s t m := by
  cases h : a.nextMatch <;> simp only [writeBack, writeNext, h, wrote]

theorem writeBack_next {a : FinalizeAccounts} {q : Pubkey} (hq : a.nextMatch = some q) (s : Ledger)
    (t : Tournament) (m n : MatchNode) :
    writeBack a ⟨s, t, m, some n⟩ = (wrote a s t m).setAccount q (.matchNode n) := by
  simp only [writeBack, writeNext, hq, wrote]

section Write

variable {a : FinalizeAccounts} {l : Loaded} {s₁ : Ledger} {t' : Tournament} {m' : MatchNode}
  (wf : Wellformed s) (loads : Loads s a l)
include wf loads

theorem wrote_confined (c : Confined (some a.tournament) s s₁)
    (same : (t'.organizer, t'.name, t'.vault) = (l.t.organizer, l.t.name, l.t.vault))
    (place : m'.tournament = l.m.tournament ∧ m'.slot = l.m.slot) :
    Confined (some a.tournament) s (wrote a s₁ t' m') := by
  have c' := c.trans (confined_set_record wf loads.record c.wf same)
  exact c'.trans (confined_set_node wf loads.matchAccount loads.home c'.wf place)

theorem viewOf_wrote : viewOf (wrote a s₁ t' m') a.tournament =
    { viewOf s₁ a.tournament with
      record := some t'
      node := Function.update (viewOf s₁ a.tournament).node l.m.slot (some m') } := by
  have hk := isTournament_of_record wf loads.record
  rw [wrote, loads.address, viewOf_set_node hk, viewOf_set_record hk]
  rfl

end Write

/-- What a finalizing call does apart from crediting its players: the rest of
the effect is the one of the lifecycle whichever participants it rewrites. -/
structure Settled (rt : Runtime) (s s' : Ledger) (ix : Instruction) (a : FinalizeAccounts) (l : Loaded)
    (winner : Pubkey) : Prop where
  confined : Confined (some a.tournament) s s'
  participant : (viewOf s' a.tournament).participant = (viewOf s a.tournament).participant
  effect : ∀ p', ((l.t.settlementMode = .organizerOnly ∧ p' = (viewOf s a.tournament).participant) ∨
      Credited l.m winner (viewOf s a.tournament).participant p') →
    Effect rt a.tournament s.clock (.call ix) (viewOf s a.tournament)
      { viewOf s' a.tournament with participant := p' }

theorem finalize_settled {ix : Instruction} {a : FinalizeAccounts} {l : Loaded} {v : Verdict} {f : Finalized}
    (wf : Wellformed s) (loads : Loads s a l) (call : Instruction.finalize? ix = some a)
    (decided : Decides l.t l.m s.clock v.winner ix)
    (h : finalizeMatch s a.tournament l.t l.m l.next l.vault l.treasury a.remainingAccounts v = .ok f) :
    Settled rt s (writeBack a f) ix a l v.winner := by
  have hk := isTournament_of_record wf loads.record
  have node : (viewOf s a.tournament).node l.m.slot = some l.m := by
    simpa only [viewOf, ← loads.address] using loads.matchAccount
  simp only [finalizeMatch, bind_ok, require_ok, orThrow_ok, checkedAdd_eq_some, ite_ok, pure_ok] at h
  obtain ⟨_, hrun, _, hact, _, hplay, reported, ⟨hb, rfl⟩, h⟩ := h
  have finalizes p' stats : Finalizes a.tournament s.clock (viewOf s a.tournament) ix a l.m.slot l.t l.m
      v.winner p' :=
    ⟨call, rfl, loads.address, loads.record, hrun, node, hact, hplay, decided, hb, stats⟩
  rcases h with ⟨hf, _, _, _, hlast, s₁, h₁, rfl⟩ | ⟨hf, _, _, n', hn, rfl⟩
  · -- the final: prizes leave the vault before record and match are written
    have hsome : (viewOf s a.tournament).vault.isSome = true := by simp [viewOf, loads.vault]
    obtain ⟨c, u, p, hv⟩ := distributePrizes_paysOnly hk h₁ wf hsome
    rw [writeBack_last]
    refine ⟨wrote_confined wf loads c rfl ⟨rfl, rfl⟩, ?_, fun p' stats => ?_⟩ <;> rw [viewOf_wrote wf loads, hv]
    have no_next := loadNext_none (Option.isNone_iff_eq_none.1 hlast ▸ loads.next)
    exact .conclude ix a l.m.slot u p (finalizes p' stats) hf no_next
  · obtain ⟨n, hnext, hkey, hround, hindex, rfl⟩ := advanceWinner_ok hn
    obtain ⟨q, hq, hnode⟩ := loadNext_some (hnext ▸ loads.next)
    obtain ⟨hplace, _⟩ := node_fits wf hnode
    rw [hkey] at hplace
    subst hplace
    have c : Confined (some a.tournament) s
        (wrote a s (Tournament.counted l.t) (MatchNode.complete l.m v.winner)) :=
      wrote_confined wf loads (.refl wf) rfl ⟨rfl, rfl⟩
    have c' := confined_set_node wf hnode hkey c.wf (advance_slot n l.m.matchIndex v.winner)
    rw [writeBack_next hq]
    refine ⟨c.trans c', ?_, fun p' stats => ?_⟩ <;> rw [viewOf_set_node hk, viewOf_wrote wf loads]
    exact .advance ix a l.m.slot n.slot (finalizes p' stats) hf hq hnode hround hindex

theorem report_simulated {a : FinalizeAccounts} {winner : Pubkey} {placements : List Pubkey}
    (wf : Wellformed s) (h : reportResult a winner placements s = .ok s') :
    Simulated rt a.tournament (.call (.reportResult a winner placements)) s s' := by
  simp only [reportResult, bind_ok, require_ok, pure_ok] at h
  obtain ⟨l, hl, _, horg, _, hmode, f, hf, rfl⟩ := h
  have call : Instruction.finalize? (.reportResult a winner placements) = some a := rfl
  obtain ⟨c, hp, effect⟩ := finalize_settled wf (loadFinalize_ok hl) call ⟨horg, hmode, rfl⟩ hf
  exact ⟨c, effect _ (.inl ⟨hmode, hp⟩)⟩

theorem confined_set_participant {s₀ : Ledger} {key w : Pubkey} {x x' : Participant} (wf₀ : Wellformed s₀)
    (hx : s₀.participant? (.participant key w) = some x) (wf : Wellformed s)
    (same : (x'.tournament, x'.wallet) = (x.tournament, x.wallet)) :
    Confined (some key) s (s.setAccount (.participant key w) (.participant x')) := by
  obtain ⟨ht, hw⟩ : x'.tournament = x.tournament ∧ x'.wallet = x.wallet := by simpa using same
  refine confined_set wf ?_ (.inr rfl)
  simpa only [Account.fits, ht, hw] using participant_fits wf₀ hx

theorem creditMatchStats_place (a b : Participant) (winner : Pubkey) :
    ((creditMatchStats a b winner).1.tournament, (creditMatchStats a b winner).1.wallet) =
        (a.tournament, a.wallet) ∧
      ((creditMatchStats a b winner).2.tournament, (creditMatchStats a b winner).2.wallet) =
        (b.tournament, b.wallet) := by
  unfold creditMatchStats
  split <;> exact ⟨rfl, rfl⟩

theorem credited_simulated {ix : Instruction} {a : FinalizeAccounts} {l : Loaded} {v : Verdict}
    (wf : Wellformed s) (hl : loadFinalize s a = .ok l) (call : Instruction.finalize? ix = some a)
    (decided : Decides l.t l.m s.clock v.winner ix) (h : finalizeCredited a l v s = .ok s') :
    Simulated rt a.tournament (.call ix) s s' := by
  have loads := loadFinalize_ok hl
  have hk := isTournament_of_record wf loads.record
  simp only [finalizeCredited, bind_ok, pure_ok, Ledger.loadParticipant_ok] at h
  obtain ⟨pa, ha, pb, hb, f, hf, rfl⟩ := h
  have settled : Settled rt s (writeBack a f) ix a l v.winner := finalize_settled wf loads call decided hf
  obtain ⟨c, hp, effect⟩ := settled
  obtain ⟨same_a, same_b⟩ := creditMatchStats_place pa pb v.winner
  have ca := confined_set_participant wf ha c.wf same_a
  have cb := confined_set_participant wf hb ca.wf same_b
  refine ⟨(c.trans ca).trans cb, ?_⟩
  rw [viewOf_set_participant hk, viewOf_set_participant hk, hp]
  exact effect _ (.inr ⟨pa, pb, ha, hb, rfl⟩)

section Credited

variable {a : FinalizeAccounts} {placements : List Pubkey} (wf : Wellformed s)
include wf

theorem confirm_simulated (h : confirmResult a placements s = .ok s') :
    Simulated rt a.tournament (.call (.confirmResult a placements)) s s' := by
  simp only [confirmResult, bind_ok, require_ok] at h
  obtain ⟨l, hl, _, hpend, _, hund, _, hplay, _, hother, h⟩ := h
  exact credited_simulated wf hl rfl ⟨⟨hpend, hund, rfl⟩, hplay, hother⟩ h

theorem claim_simulated (h : claimResult a placements s = .ok s') :
    Simulated rt a.tournament (.call (.claimResult a placements)) s s' := by
  simp only [claimResult, bind_ok, require_ok] at h
  obtain ⟨l, hl, _, hpend, _, hund, _, hdue, h⟩ := h
  exact credited_simulated wf hl rfl ⟨⟨hpend, hund, rfl⟩, hdue⟩ h

theorem forceClaim_simulated (h : forceClaimDisputed a placements s = .ok s') :
    Simulated rt a.tournament (.call (.forceClaimDisputed a placements)) s s' := by
  simp only [forceClaimDisputed, bind_ok, require_ok] at h
  obtain ⟨l, hl, _, hpend, _, hdis, _, hdue, h⟩ := h
  exact credited_simulated wf hl rfl ⟨⟨hpend, hdis, rfl⟩, hdue⟩ h

theorem resolve_simulated {winner : Pubkey} (h : resolveDispute a winner placements s = .ok s') :
    Simulated rt a.tournament (.call (.resolveDispute a winner placements)) s s' := by
  simp only [resolveDispute, bind_ok, require_ok] at h
  obtain ⟨l, hl, _, horg, _, hdis, h⟩ := h
  exact credited_simulated wf hl rfl ⟨horg, hdis, rfl⟩ h

theorem settleFinal_simulated (h : settleFinal a placements s = .ok s') :
    Simulated rt a.tournament (.call (.settleFinal a placements)) s s' := by
  simp only [settleFinal, bind_ok, require_ok] at h
  obtain ⟨l, hl, _, harb, _, hpend, _, hund, _, hdue, h⟩ := h
  exact credited_simulated wf hl rfl ⟨harb, ⟨hpend, hund, rfl⟩, hdue⟩ h

end Credited

end BracketChain.FinalizeEffects
