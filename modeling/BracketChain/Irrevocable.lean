import BracketChain.Reports
import BracketChain.Scripts

namespace BracketChain.Irrevocable

open Outcome Keys Records Accounts Registration Start Settlement Envelope Refunds Program Runs Layout View Lifecycle
  Refinement Lives Matches Reports Scripts

/-- The winner that a finalizing call settles its match for. -/
def Instruction.verdict (m : MatchNode) : Instruction → Pubkey
  | .reportResult _ winner _ | .resolveDispute _ winner _ => winner
  | _ => m.proposedWinner

/-- The seats of a match that the winner of child `i` takes and leaves. -/
def seats (n : MatchNode) (i : Nat) : Pubkey × Pubkey :=
  if i % 2 = 0 then (n.playerA, n.playerB) else (n.playerB, n.playerA)

/-- A finalization advances its winner into a match that is completed, where
it is not seated already next to an empty seat. -/
def Overwrites (key : Pubkey) (e : Ledger × Action) : Prop :=
  ∃ ix a m p n, e.2 = .call ix ∧ Instruction.finalize? ix = some a ∧ a.tournament = key ∧
    e.1.matchNode? a.matchAccount = some m ∧ a.nextMatch = some p ∧ e.1.matchNode? p = some n ∧
    n.status = .completed ∧ seats n m.matchIndex ≠ (Instruction.verdict m ix, default)

/-- The matches that the bracket of a tournament has, or will have once its
first chunk opens it. -/
def plannedMatches (t : Tournament) : Nat :=
  if t.status = .registration then
    match bracketSizeOf t.participantCount with
    | .ok size => size - 1
    | .error _ => 0
  else t.totalMatches

/-- A chunk brings more byes than the bracket has matches. -/
def Overcounts (key : Pubkey) (e : Ledger × Action) : Prop :=
  ∃ c t, e.2 = .call (.startTournament c) ∧ c.tournament = key ∧ e.1.tournament? key = some t ∧
    plannedMatches t < t.matchesReported + byesOf c.descriptors

/-- A finalization settles a match that an earlier tournament left open. -/
def Revives (key : Pubkey) (born : Ledger) (e : Ledger × Action) : Prop :=
  ∃ ix a, e.2 = .call ix ∧ Instruction.finalize? ix = some a ∧ a.tournament = key ∧
    (born.matchNode? a.matchAccount).isSome = true

/-- A step that none of these defects touches. -/
structure Sound (key : Pubkey) (born : Ledger) (e : Ledger × Action) : Prop where
  kept : ¬ Overwrites key e
  fits : ¬ Overcounts key e
  own : ¬ Revives key born e

variable {rt : Runtime} {key : Pubkey} {born s : Ledger} {b : Action}

theorem decides_verdict {t : Tournament} {m : MatchNode} {clock : Clock} {winner : Pubkey} {ix : Instruction}
    (h : Decides t m clock winner ix) : winner = Instruction.verdict m ix := by
  cases ix with
  | reportResult => exact h.2.2
  | confirmResult => exact h.1.2.2
  | claimResult | forceClaimDisputed => exact h.1.2.2
  | resolveDispute => exact h.2.2
  | settleFinal => exact h.2.1.2.2
  | _ => cases h

theorem opens_planned {t t₁ : Tournament} (h : Opens t t₁) : plannedMatches t = t₁.totalMatches := by
  rcases h with ⟨hreg, _, _, size, hsize, _, rfl⟩ | ⟨hpend, rfl⟩
  · simp [plannedMatches, hreg, hsize]
  · simp [plannedMatches, hpend]

theorem advance_sameResult {n : MatchNode} {i : Nat} {winner : Pubkey} (h : seats n i = (winner, default)) :
    SameResult n (MatchNode.advance n i winner) := by
  rw [advance_eq]
  by_cases hi : i % 2 = 0
  · obtain ⟨rfl, hb⟩ : n.playerA = winner ∧ n.playerB = default := by simpa [seats, hi] using h
    constructor <;> simp [hi, hb]
  · obtain ⟨rfl, ha⟩ : n.playerB = winner ∧ n.playerA = default := by simpa [seats, hi] using h
    constructor <;> simp [hi, ha]

theorem kept_seats (kept : ¬ Overwrites key (s, b)) {ix : Instruction} {a : FinalizeAccounts} {child next : Slot}
    {t : Tournament} {m n : MatchNode} {winner : Pubkey} {p' : Pubkey → Option Participant} (call : b = .call ix)
    (finalizes : Finalizes key s.clock (viewOf s key) ix a child t m winner p')
    (address : a.nextMatch = some (.matchNode key next)) (node : (viewOf s key).node next = some n)
    (completed : n.status = .completed) : SameResult n (MatchNode.advance n m.matchIndex winner) := by
  apply advance_sameResult
  rw [decides_verdict finalizes.decided]
  by_contra hne
  have at_ : s.matchNode? a.matchAccount = some m := finalizes.address ▸ finalizes.node
  exact kept ⟨ix, a, m, _, n, call, finalizes.call, finalizes.key_eq, at_, address, node, completed, hne⟩

theorem sound_own (sound : Sound key born (s, b)) {ix : Instruction} {a : FinalizeAccounts} {slot : Slot}
    {t : Tournament} {m : MatchNode} {winner : Pubkey} {p' : Pubkey → Option Participant} (call : b = .call ix)
    (finalizes : Finalizes key s.clock (viewOf s key) ix a slot t m winner p') :
    (viewOf born key).node slot = none := by
  by_contra hne
  exact sound.own ⟨ix, a, call, finalizes.call, finalizes.key_eq,
    finalizes.address ▸ Option.ne_none_iff_isSome.1 hne⟩

/-- The matches and the counters after one sound step. -/
theorem reported_step {v' : TournamentView} {t t' : Tournament} {ever : Set Slot}
    (h : Reported (viewOf born key).node (viewOf s key).node t ever) (sound : Sound key born (s, b))
    (slots : ∀ slot m, (viewOf s key).node slot = some m → m.slot = slot)
    (effect : Effect rt key s.clock b (viewOf s key) v') (ht : s.tournament? key = some t)
    (ht' : v'.record = some t') :
    Reported (viewOf born key).node v'.node t' (ever ∪ {slot | CompletedAt v'.node slot}) := by
  have same {t₁ : Tournament} (h₁ : (viewOf s key).record = some t₁) : t = t₁ := Option.some.inj (ht.symm.trans h₁)
  have quiet (hn : v'.node = (viewOf s key).node)
      (counters : t'.matchesInitialized = t.matchesInitialized ∧ t'.matchesReported = t.matchesReported ∧
        t'.totalMatches = t.totalMatches)
      (status : t'.status = t.status ∨ terminal t'.status) :
      Reported (viewOf born key).node v'.node t' (ever ∪ {slot | CompletedAt v'.node slot}) := by
    rw [hn]
    exact h.keep (fun _ => rfl) (fun _ => Iff.rfl) counters status
  cases effect with
  | others =>
      obtain rfl := same ht'
      exact quiet rfl ⟨rfl, rfl, rfl⟩ (.inl rfl)
  | create _ _ _ unopened => simp [show (viewOf s key).record = some t from ht] at unopened
  | join _ _ _ _ record | requestSeed _ _ record | revealSeed _ _ _ record =>
      obtain rfl := same record
      obtain rfl := Option.some.inj ht'
      exact quiet rfl ⟨rfl, rfl, rfl⟩ (.inl rfl)
  | partialCancel _ _ record =>
      obtain rfl := same record
      obtain rfl := Option.some.inj ht'
      exact quiet rfl ⟨rfl, rfl, rfl⟩ (.inr (by simp [terminal]))
  | refund ix c _ _ record _ refunding =>
      obtain rfl := same record
      obtain rfl := Option.some.inj ht'
      obtain ⟨status, rfl, _, ended⟩ := refunding_status refunding
      exact quiet rfl (by split <;> exact ⟨rfl, rfl, rfl⟩) (.inr (by split <;> exact ended))
  | start c key_eq record _ opens chunk tallied bound =>
      obtain rfl := same record
      obtain rfl := Option.some.inj ht'
      have fits : t.matchesReported + byesOf c.descriptors ≤ plannedMatches t := by
        by_contra hlt
        exact sound.fits ⟨c, t, rfl, key_eq, ht, not_le.1 hlt⟩
      exact h.start opens rfl chunk tallied bound (opens_planned opens ▸ fits)
  | @edit _ ix c slot t₁ m m' call key_eq address record node edits =>
      obtain rfl := same ht'
      exact h.keep (update_isSome node m') (completed_edit node edits) ⟨rfl, rfl, rfl⟩ (.inl rfl)
  | @advance _ ix c slot next t₁ m n winner p' finalizes inner address parent round index =>
      obtain rfl := same finalizes.record
      obtain rfl := Option.some.inj ht'
      have apart : next ≠ slot := by
        intro he
        have hm := congrArg Slot.round (slots slot m finalizes.node)
        have hn := congrArg Slot.round (slots next n parent)
        simp only [MatchNode.slot, he] at hm hn
        omega
      have parent' : Function.update (viewOf s key).node slot (some (MatchNode.complete m winner)) next = some n := by
        rw [Function.update_of_ne apart, parent]
      have done q : CompletedAt (Function.update (Function.update (viewOf s key).node slot
          (some (MatchNode.complete m winner))) next (some (MatchNode.advance n m.matchIndex winner))) q ↔
            CompletedAt (viewOf s key).node q ∨ q = slot :=
        (completed_advance parent' (kept_seats sound.kept rfl finalizes address parent) q).trans (completed_complete ..)
      exact h.finish finalizes.running (sound_own sound rfl finalizes) (by simp [finalizes.node])
        (by simp [CompletedAt, finalizes.node, finalizes.active])
        (fun q => (update_isSome parent' _ q).trans (update_isSome finalizes.node _ q)) done ⟨rfl, rfl, rfl⟩ (.inl rfl)
  | @conclude _ ix c slot t₁ m winner p' u paid finalizes last =>
      obtain rfl := same finalizes.record
      obtain rfl := Option.some.inj ht'
      exact h.finish finalizes.running (sound_own sound rfl finalizes) (by simp [finalizes.node])
        (by simp [CompletedAt, finalizes.node, finalizes.active]) (update_isSome finalizes.node _)
        (completed_complete _ slot m winner) ⟨rfl, rfl, rfl⟩ (.inr (.inl rfl))
  | closeChildren c key_eq closed record ended =>
      obtain rfl := same record
      obtain rfl := same ht'
      refine h.close ended fun q m hm => ?_
      simp only [TournamentView.without] at hm
      split at hm
      · cases hm
      · exact hm
  | closeRoot => cases ht'

theorem completed_step {v' : TournamentView} {slot : Slot} {m m' : MatchNode} (kept : ¬ Overwrites key (s, b))
    (effect : Effect rt key s.clock b (viewOf s key) v') (hm : (viewOf s key).node slot = some m)
    (completed : m.status = .completed) (hm' : v'.node slot = some m') : SameResult m m' := by
  have change := effect_node effect slot
  rw [hm'] at change
  have same {n : MatchNode} (h : (viewOf s key).node slot = some n) : m = n := Option.some.inj (hm.symm.trans h)
  generalize hn : some m' = n at change
  cases change with
  | same => exact same hn.symm ▸ .refl m
  | placed c d _ _ _ _ chunk mem slot_eq =>
      have taken := chunk.fresh d mem
      rw [slot_eq] at taken
      cases hm.symm.trans taken
  | edited ix a _ _ _ _ _ node edits =>
      obtain rfl := same node
      obtain rfl := Option.some.inj hn
      exact edits_sameResult edits (by simp [completed])
  | finalized ix a _ finalizes =>
      obtain rfl := same finalizes.node
      exact absurd (completed.symm.trans finalizes.active) (by simp)
  | seated ix a child call finalizes _ address node =>
      obtain rfl := same node
      obtain rfl := Option.some.inj hn
      exact kept_seats kept call finalizes address node completed
  | closed => cases hn

/-- The slots whose match was completed at some point of a run. -/
def everCompleted (key : Pubkey) (past : History) (s : Ledger) : Set Slot :=
  {slot | ∃ q, Visits past s q ∧ CompletedAt (viewOf q key).node slot}

theorem everCompleted_snoc {past : History} {s' : Ledger} : everCompleted key (past ++ [(s, b)]) s' =
    everCompleted key past s ∪ {slot | CompletedAt (viewOf s' key).node slot} := by
  ext slot
  simp only [everCompleted, visits_snoc, Set.mem_ofPred_eq, Set.mem_union, or_and_right, exists_or, exists_eq_left]
  exact or_comm

/-- The results that a state has kept of those its history has seen. -/
def KeepsResults (key : Pubkey) (past : History) (s : Ledger) : Prop :=
  ∀ q slot m m', Visits past s q → q.matchNode? (.matchNode key slot) = some m → m.status = .completed →
    s.matchNode? (.matchNode key slot) = some m' → SameResult m m'

theorem reported_start {a : CreateTournament} {start : Ledger} {past : History}
    (life : Life rt a born start past s)
    (unplayed : ∀ slot m, born.matchNode? (.matchNode a.key slot) = some m → m.status ≠ .completed) :
    Reported (viewOf born a.key).node (viewOf start a.key).node (a.record born.clock.unixTimestamp)
      (everCompleted a.key [] start) := by
  have nodes := life.start_node
  have none_ : everCompleted a.key [] start = ∅ := by
    ext slot
    simp only [everCompleted, Visits, Set.mem_ofPred_eq, Set.mem_empty_iff_false, iff_false]
    rintro ⟨q, rfl | ⟨_, hb⟩, m, hm, hc⟩
    · exact unplayed slot m ((congrFun nodes slot).symm.trans hm) hc
    · simp at hb
  rw [none_, nodes]
  refine ⟨fun slot _ => ?_, by simp, by simp [CreateTournament.record], fun _ slot hs => by simpa using hs, fun _ => ?_,
    by simp [CreateTournament.record], by simp [CreateTournament.record]⟩
  · simp only [Set.mem_empty_iff_false, iff_false]
    rintro ⟨m, hm, hc⟩
    exact unplayed slot m hm hc
  · have empty : {slot | ((viewOf born a.key).node slot).isSome = true ∧ (viewOf born a.key).node slot = none} = ∅ := by
      ext slot
      simp only [Set.mem_ofPred_eq, Set.mem_empty_iff_false, iff_false]
      rintro ⟨hs, hn⟩
      rw [hn] at hs
      cases hs
    rw [empty]
    simp [CreateTournament.record]

theorem life_reported {a : CreateTournament} {start : Ledger} {past : History}
    (life : Life rt a born start past s)
    (unplayed : ∀ slot m, born.matchNode? (.matchNode a.key slot) = some m → m.status ≠ .completed)
    (sound : Always (Sound a.key born) past) :
    KeepsResults a.key past s ∧ ∃ t, s.tournament? a.key = some t ∧
      Reported (viewOf born a.key).node (viewOf s a.key).node t (everCompleted a.key past s) := by
  refine life.invariant (P := fun past s => Always (Sound a.key born) past → KeepsResults a.key past s ∧
    ∃ t, s.tournament? a.key = some t ∧
      Reported (viewOf born a.key).node (viewOf s a.key).node t (everCompleted a.key past s)) ?_ ?_ sound
  · refine fun _ => ⟨?_, _, ?_, reported_start life unplayed⟩
    · rintro q slot m m' (rfl | ⟨_, hb⟩) hm _ hm'
      · exact Option.some.inj (hm.symm.trans hm') ▸ .refl m
      · simp at hb
    · exact life.start_record
  · rintro past s b s' earlier ih step effect later sound
    obtain ⟨sound, last⟩ := always_snoc.1 sound
    obtain ⟨keeps, t, ht, reported⟩ := ih sound
    obtain ⟨t', ht'⟩ := later.record
    have next := reported_step reported last (fun slot m hm => (node_slot earlier.wf hm).1) effect ht ht'
    refine ⟨fun q slot m m' hq hm completed hm' => ?_, t', ht', everCompleted_snoc ▸ next⟩
    rcases visits_snoc.1 hq with rfl | hq
    · exact Option.some.inj (hm.symm.trans hm') ▸ .refl m
    · cases hn : s.matchNode? (.matchNode a.key slot) with
      | some n =>
          have same := keeps q slot m n hq hm completed hn
          exact same.trans (completed_step last.kept effect hn (same.status.trans completed) hm')
      | none =>
          -- the account was closed, and no chunk opens it again
          have ended : terminal t.status := by
            by_contra live
            have taken := reported.kept live slot (.inl ⟨q, hq, m, hm, completed⟩)
            rw [show (viewOf s a.key).node slot = none from hn] at taken
            cases taken
          cases (gone_step effect ht ended hn).symm.trans hm'

/-- In a run of sound steps, completed matches keep their result while they
are open, each was counted once, and no more are counted than planned. -/
theorem reported_irrevocable {a : CreateTournament} {start : Ledger} {past : History}
    (life : Life rt a born start past s)
    (unplayed : ∀ slot m, born.matchNode? (.matchNode a.key slot) = some m → m.status ≠ .completed)
    (sound : Always (Sound a.key born) past) :
    KeepsResults a.key past s ∧ ∃ t, s.tournament? a.key = some t ∧
      (everCompleted a.key past s).encard = t.matchesReported ∧ t.matchesReported ≤ t.totalMatches ∧
      {slot | CompletedAt (viewOf s a.key).node slot} =
        {slot | slot ∈ everCompleted a.key past s ∧ (s.matchNode? (.matchNode a.key slot)).isSome = true} ∧
      (¬ terminal t.status → {slot | CompletedAt (viewOf s a.key).node slot}.encard = t.matchesReported) := by
  obtain ⟨keeps, t, ht, reported⟩ := life_reported life unplayed sound
  have open_ : {slot | CompletedAt (viewOf s a.key).node slot} =
      {slot | slot ∈ everCompleted a.key past s ∧ (s.matchNode? (.matchNode a.key slot)).isSome = true} := by
    ext slot
    simp only [Set.mem_ofPred_eq]
    constructor
    · intro done
      exact ⟨⟨s, .inl rfl, done⟩, by obtain ⟨m, hm, _⟩ := done; exact Option.isSome_iff_exists.2 ⟨m, hm⟩⟩
    · rintro ⟨hs, taken⟩
      exact (reported.completed slot taken).2 hs
  refine ⟨keeps, t, ht, reported.count, reported.bound, open_, fun live => ?_⟩
  rw [← reported.count, open_]
  congr 1
  ext slot
  simp only [Set.mem_ofPred_eq, and_iff_left_iff_imp]
  exact fun hs => reported.kept live slot (.inl hs)

/-- A check of single steps: byes fit, and matches that were not open before
are settled without a winner to advance. -/
def plain (key : Pubkey) (born : Ledger) (e : Ledger × Action) : Bool :=
  match e.2 with
  | .call (.startTournament c) =>
      (e.1.tournament? key).all fun t => t.matchesReported + byesOf c.descriptors ≤ plannedMatches t
  | .call ix => (Instruction.finalize? ix).all fun a => a.nextMatch.isNone && (born.matchNode? a.matchAccount).isNone
  | .outside _ => true

theorem plain_finalize {ix : Instruction} {a : FinalizeAccounts} {e : Ledger × Action} (call : e.2 = .call ix)
    (accounts : Instruction.finalize? ix = some a) (h : plain key born e = true) :
    a.nextMatch = none ∧ born.matchNode? a.matchAccount = none := by
  simp only [plain, call] at h
  split at h
  · cases Action.call.inj ‹_›
    cases accounts
  · cases Action.call.inj ‹_›
    simpa [accounts] using h
  · contradiction

theorem sound_of_plain {e : Ledger × Action} (h : plain key born e = true) : Sound key born e := by
  refine ⟨?_, ?_, ?_⟩
  · rintro ⟨ix, a, m, p, n, call, accounts, _, _, next, _⟩
    rw [(plain_finalize call accounts h).1] at next
    cases next
  · rintro ⟨c, t, call, _, ht, lt⟩
    simp [plain, call, ht] at h
    omega
  · rintro ⟨ix, a, call, accounts, _, taken⟩
    rw [(plain_finalize call accounts h).2] at taken
    cases taken

theorem conceded_life : SampleLife (proposedBy3 sampleTournament.key ++ [concede sampleTournament.key]) :=
  script_life sampleBorn_reachable rfl (by decide) (by decide)

theorem conceded_reported : ∃ start past s t,
    Life sampleRuntime sampleTournament sampleBorn start past s ∧ s.tournament? sampleTournament.key = some t ∧
    t.status = .completed ∧ (everCompleted sampleTournament.key past s).encard = 1 := by
  obtain ⟨_, t, ht, count, _⟩ := reported_irrevocable conceded_life
    (fun slot m hm => by simp [sampleBorn_fresh.node slot] at hm)
    (fun e he => sound_of_plain (List.all_eq_true.1 (by decide) e he))
  refine ⟨_, _, _, t, conceded_life, ht, ?_, count.trans ?_⟩ <;> obtain rfl := Option.some.inj ht <;> rfl

section Overwritten

def trustTournament : CreateTournament := { sampleTournament with settlementMode := .organizerOnly }

def trust0 : MatchInitDescriptor := ⟨0, 0, 0, 255, .key 2, .key 3, false⟩

def trust1 : MatchInitDescriptor := ⟨0, 0, 1, 255, .key 4, .key 5, false⟩

/-- The final is opened as a bye, which counts as reported. -/
def byeFinal : MatchInitDescriptor := ⟨0, 1, 0, 255, .key 2, default, true⟩

def trustMatch (d : MatchInitDescriptor) : Pubkey := .matchNode trustTournament.key d.slot

/-- The semifinals are reported into the completed final, which becomes active
and is reported a second time. -/
def overwritten : List Action :=
  [joinAs 2 trustTournament.key, joinAs 3 trustTournament.key, joinAs 4 trustTournament.key, openTreasury,
    .outside (.slotHashes (List.replicate 48 0)),
    .call (.startTournament ⟨.key 1, trustTournament.key, [trust0, trust1, byeFinal],
      [trustMatch trust0, trustMatch trust1, trustMatch byeFinal]⟩),
    .call (.reportResult ⟨.key 1, trustTournament.key, trustMatch trust0, some (trustMatch byeFinal), []⟩ (.key 2) []),
    .call (.reportResult ⟨.key 1, trustTournament.key, trustMatch trust1, some (trustMatch byeFinal), []⟩ (.key 4) []),
    .call (.reportResult ⟨.key 1, trustTournament.key, trustMatch byeFinal, none, [.key 13, .key 17]⟩ (.key 4)
      [.key 4])]

theorem overwritten_life : Life sampleRuntime trustTournament sampleBorn
    (created sampleRuntime trustTournament sampleBorn)
    (log sampleRuntime (created sampleRuntime trustTournament sampleBorn) overwritten)
    (after sampleRuntime (created sampleRuntime trustTournament sampleBorn) overwritten) :=
  script_life sampleBorn_reachable rfl (by decide) (by decide)

/-- The winner of a completed match is replaced, and more matches are reported
than there are. -/
theorem overwritten_not_irrevocable : ∃ start past s t,
    Life sampleRuntime trustTournament sampleBorn start past s ∧ Fresh trustTournament.key sampleBorn ∧
    s.tournament? trustTournament.key = some t ∧ ¬ KeepsResults trustTournament.key past s ∧
    t.totalMatches < t.matchesReported := by
  refine ⟨_, _, _, _, overwritten_life, sampleBorn_fresh, rfl, fun keeps => ?_, by decide⟩
  have same := keeps (after sampleRuntime (created sampleRuntime trustTournament sampleBorn) (overwritten.take 6))
    byeFinal.slot _ _ (script_visits _ (overwritten.take 6) (overwritten.drop 6)) rfl rfl rfl
  exact absurd same.winner (by decide)

end Overwritten

end BracketChain.Irrevocable
