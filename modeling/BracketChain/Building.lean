import BracketChain.Matches
import BracketChain.Bookkeeping
import BracketChain.Seats

namespace BracketChain.Building

open Outcome Keys Records Accounts Registration Start Settlement Envelope Refunds Program Runs Layout View Lifecycle
  Refinement Lives Bookkeeping Matches Seats

variable {rt : Runtime} {key : Pubkey} {clock : Clock} {b : Action} {v v' : TournamentView} {t t' : Tournament}

section Bounds

/-- What the record of a tournament keeps to in every state. -/
structure Bounded (t : Tournament) : Prop where
  count : t.participantCount ≤ t.maxParticipants
  most : t.maxParticipants ≤ Keys.maxParticipants
  idle : t.status = .registration → t.matchesInitialized = 0 ∧ t.matchesReported = 0

theorem Bounded.count_small (h : Bounded t) : t.participantCount ≤ u16Max :=
  Nat.le_trans (Nat.le_trans h.count h.most) (by decide)

theorem check_bounded {a : CreateTournament} {now : Int} (h : a.check now = .ok ()) :
    Bounded (a.record now) := by
  simp only [CreateTournament.check, bind_ok, require_ok] at h
  obtain ⟨_, _, _, _, _, _, _, most, _⟩ := h
  exact ⟨Nat.zero_le _, most, fun _ => ⟨rfl, rfl⟩⟩

theorem effect_bounded (effect : Effect rt key clock b v v') (before : ∀ t, v.record = some t → Bounded t)
    (ht' : v'.record = some t') : Bounded t' := by
  cases effect with
  | others | edit | closeChildren => exact before t' ht'
  | create a _ _ _ checked =>
      obtain rfl := Option.some.inj ht'
      exact check_bounded checked
  | join a _ _ _ record _ _ _ _ room =>
      obtain rfl := Option.some.inj ht'
      have h := before _ record
      exact ⟨room, h.most, h.idle⟩
  | requestSeed _ _ record | revealSeed _ _ _ record =>
      obtain rfl := Option.some.inj ht'
      have h := before _ record
      exact ⟨h.count, h.most, h.idle⟩
  | start c _ record _ opens _ tallied bound =>
      obtain rfl := Option.some.inj ht'
      have h := before _ record
      have terms := opens_terms opens
      rw [tally_ok bound tallied]
      refine ⟨?_, terms.maxParticipants ▸ h.most, fun hs => ?_⟩
      · simp only [terms.maxParticipants, (opens_kept opens).1]
        exact h.count
      · simp only [(opens_status opens).2] at hs
        split at hs <;> cases hs
  | advance _ _ _ _ finalizes | conclude _ _ _ _ _ finalizes =>
      obtain rfl := Option.some.inj ht'
      have h := before _ finalizes.record
      exact ⟨h.count, h.most, fun hs => by simp [Tournament.concluded, Tournament.counted, finalizes.running] at hs⟩
  | refund _ _ _ _ record _ refunding =>
      obtain rfl := Option.some.inj ht'
      have h := before _ record
      obtain ⟨status, rfl, _, ended⟩ := refunding_status refunding
      have idle : status ≠ .registration := by rintro rfl; simp [terminal] at ended
      split <;> exact ⟨h.count, h.most, fun hs => absurd hs idle⟩
  | partialCancel _ _ record =>
      obtain rfl := Option.some.inj ht'
      have h := before _ record
      exact ⟨h.count, h.most, fun hs => by cases hs⟩
  | closeRoot => cases ht'

theorem reachable_bounded {s : Ledger} (reachable : Reachable rt s) (ht : s.tournament? key = some t) :
    Bounded t := by
  obtain ⟨start, past, genesis, run⟩ := reachable
  refine run.invariant (P := fun _ s => ∀ key t, s.tournament? key = some t → Bounded t) (fun key t ht => ?_) ?_
    key t ht
  · cases (genesis_record genesis key).symm.trans ht
  · intro past s b s' earlier bounded step key t ht
    have wf := run_wellformed (genesis_wellformed genesis) earlier
    have hk := isTournament_of_record (step_confined wf step).wf ht
    exact effect_bounded (step_effect wf hk step) (bounded key) ht

end Bounds

/-- The descriptors that a step adds to the bracket. -/
def acceptedBy (key : Pubkey) : Action → List MatchInitDescriptor
  | .call (.startTournament c) => if c.tournament = key then c.descriptors else []
  | _ => []

/-- The descriptors that a history has accepted, in order. -/
def accepted (key : Pubkey) (past : History) : List MatchInitDescriptor :=
  past.flatMap fun e => acceptedBy key e.2

theorem accepted_snoc (key : Pubkey) (past : History) (s : Ledger) (b : Action) :
    accepted key (past ++ [(s, b)]) = accepted key past ++ acceptedBy key b := by
  simp [accepted]

theorem mem_accepted {key : Pubkey} {past : History} {d : MatchInitDescriptor} : d ∈ accepted key past ↔
    ∃ e ∈ past, ∃ c, e.2 = .call (.startTournament c) ∧ c.tournament = key ∧ d ∈ c.descriptors := by
  rw [accepted, List.mem_flatMap]
  refine exists_congr fun e => and_congr_right fun _ => ?_
  constructor
  · intro hd
    unfold acceptedBy at hd
    split at hd
    · rename_i c hc
      split at hd
      · exact ⟨c, hc, ‹_›, hd⟩
      · cases hd
    · cases hd
  · rintro ⟨c, hc, hk, hd⟩
    rwa [hc, acceptedBy, if_pos hk]

theorem acceptedBy_eq_nil (h : ∀ c, b = .call (.startTournament c) → c.tournament ≠ key) :
    acceptedBy key b = [] := by
  cases b with
  | outside => rfl
  | call ix =>
      cases ix with
      | startTournament c => exact if_neg (h c rfl)
      | _ => rfl

theorem acceptedBy_other (h : b.tournament ≠ some key) : acceptedBy key b = [] := by
  refine acceptedBy_eq_nil ?_
  rintro c rfl hk
  exact h (congrArg some hk)

theorem acceptedBy_edit {ix : Instruction} {a : MatchAccounts} (h : Instruction.edit? ix = some a) :
    acceptedBy key (.call ix) = [] := by
  cases ix <;> simp_all [Instruction.edit?, acceptedBy]

theorem acceptedBy_finalize {ix : Instruction} {a : FinalizeAccounts} (h : Instruction.finalize? ix = some a) :
    acceptedBy key (.call ix) = [] := by
  cases ix <;> simp_all [Instruction.finalize?, acceptedBy]

theorem acceptedBy_refund {ix : Instruction} {a : CancelTournament} (h : Refunding t a t' ix) :
    acceptedBy key (.call ix) = [] := by
  cases ix <;> simp_all [Refunding, acceptedBy]

def Opened (t : Tournament) : Prop :=
  t.status = .pendingBracketInit ∨ t.status = .active ∨ t.status = .completed

/-- What the chunks have settled about an open bracket. -/
structure Underway (v : TournamentView) (t : Tournament) (ds : List MatchInitDescriptor) : Prop where
  dimensions : ∃ k, Dimensioned t k ∧ ∀ d ∈ ds, MatchInitDescriptor.position d ∈ Elimination.grid (k + 1)
  revealed : t.settlementMode ≠ .organizerOnly → t.seedRevealed = true
  seated : ∀ w, drawOf t = some w → ∀ d ∈ ds, Seated v.participant w d
  filled : t.status = .active ∨ t.status = .completed → t.matchesInitialized = t.totalMatches

/-- The bracket of a tournament after the descriptors `ds` were accepted, with
the matches of `v₀` open before. -/
structure Built (key : Pubkey) (v₀ v : TournamentView) (t : Tournament) (ds : List MatchInitDescriptor) :
    Prop where
  distinct : (ds.map MatchInitDescriptor.slot).Nodup
  fresh : ∀ d ∈ ds, v₀.node d.slot = none
  idle : t.status = .registration → ds = []
  initialized : t.matchesInitialized = ds.length
  taken : ∀ slot, (v.node slot).isSome = true ↔ (v₀.node slot).isSome = true ∨ ∃ d ∈ ds, d.slot = slot
  players : ∀ d ∈ ds, ∃ m, v.node d.slot = some m ∧
    (d.round = 0 → m.playerA = (d.node key).playerA ∧ m.playerB = (d.node key).playerB)
  underway : Opened t → Underway v t ds

theorem Built.of_node {v₀ v₁ v : TournamentView} {ds : List MatchInitDescriptor} (h : Built key v₀ v t ds)
    (same : v₀.node = v₁.node) : Built key v₁ v t ds :=
  { h with
    fresh := fun d hd => same ▸ h.fresh d hd
    taken := fun slot => same ▸ h.taken slot }

theorem carries_keeps {p p' : Pubkey → Option Participant} (roles : KeepsRoles p p') {w : Pubkey} {i : Nat}
    (h : Carries p w i) : Carries p' w i := by
  obtain ⟨x, hx, rfl⟩ := h
  have hw := roles w
  rw [hx, Option.map_some, Option.map_eq_some_iff] at hw
  obtain ⟨x', hx', he⟩ := hw
  exact ⟨x', hx', (Prod.mk.inj he).1⟩

theorem seated_mono {p p' : Pubkey → Option Participant} (carries : ∀ w i, Carries p w i → Carries p' w i)
    {w : Draw} {d : MatchInitDescriptor} (h : Seated p w d) : Seated p' w d := by
  have slotSeated {player : Pubkey} {parent : Nat} (h : SlotSeated p w player parent) :
      SlotSeated p' w player parent := by
    obtain ⟨winner, o, hw, h⟩ := h
    refine ⟨winner, o, hw, ?_⟩
    split at h
    · exact (if_pos ‹_›).mpr ⟨h.1, carries _ _ h.2⟩
    · exact (if_neg ‹_›).mpr h
  unfold Seated at h ⊢
  split at h
  · rw [if_pos ‹_›]
    obtain ⟨a, o, hw, ha, ho⟩ := h
    refine ⟨a, o, hw, carries _ _ ha, ?_⟩
    cases o with
    | none => exact ho
    | some b => exact ⟨ho.1, ho.2.1, carries _ _ ho.2.2⟩
  · rw [if_neg ‹_›]
    refine ⟨h.1, ?_⟩
    have h := h.2
    split at h
    · exact (if_pos ‹_›).mpr ⟨slotSeated h.1, slotSeated h.2⟩
    · exact (if_neg ‹_›).mpr h

section Steps

variable {v₀ : TournamentView} {ds : List MatchInitDescriptor}

theorem Built.keep (h : Built key v₀ v t ds)
    (nodes : ∀ slot, (v.node slot).map (fun m => (m.playerA, m.playerB)) =
      (v'.node slot).map (fun m => (m.playerA, m.playerB)) ∨
        (0 < slot.round ∧ (v.node slot).isSome = true ∧ (v'.node slot).isSome = true))
    (initialized : t'.matchesInitialized = t.matchesInitialized)
    (status : t'.status = .registration → t.status = .registration)
    (underway : Opened t' → Underway v' t' ds) : Built key v₀ v' t' ds := by
  refine ⟨h.distinct, h.fresh, fun hs => h.idle (status hs), initialized.trans h.initialized, fun slot => ?_,
    fun d hd => ?_, underway⟩
  · rw [← h.taken slot]
    rcases nodes slot with same | ⟨_, before, after⟩
    · simpa using congrArg (fun o => Option.isSome o = true) same.symm
    · simp [before, after]
  · obtain ⟨m, hm, first⟩ := h.players d hd
    rcases nodes d.slot with same | ⟨above, _, after⟩
    · rw [hm, Option.map_some, eq_comm, Option.map_eq_some_iff] at same
      obtain ⟨m', hm', same⟩ := same
      obtain ⟨hA, hB⟩ := Prod.mk.inj same
      exact ⟨m', hm', fun hr => ⟨hA.trans (first hr).1, hB.trans (first hr).2⟩⟩
    · obtain ⟨m', hm'⟩ := Option.isSome_iff_exists.1 after
      exact ⟨m', hm', fun hr => absurd hr (Nat.pos_iff_ne_zero.1 above)⟩

theorem Underway.keep (h : Underway v t ds)
    (dims : t'.bracketSize = t.bracketSize ∧ t'.totalMatches = t.totalMatches ∧
      t'.participantCount = t.participantCount)
    (mode : t'.settlementMode = t.settlementMode) (seed : t'.seedHash = t.seedHash)
    (revealed : t'.seedRevealed = t.seedRevealed) (initialized : t'.matchesInitialized = t.matchesInitialized)
    (status : t'.status = .active ∨ t'.status = .completed → t.status = .active ∨ t.status = .completed)
    (roles : KeepsRoles v.participant v'.participant) : Underway v' t' ds := by
  obtain ⟨size, total, count⟩ := dims
  refine ⟨?_, fun hm => revealed.trans (h.revealed (mode ▸ hm)), fun w hw d hd => ?_, fun hs => ?_⟩
  · obtain ⟨k, dimensioned, grid⟩ := h.dimensions
    exact ⟨k, dimensioned.of_same size total count, grid⟩
  · have draw : drawOf t' = drawOf t := by simp only [drawOf, mode, seed, size, count]
    exact seated_mono (fun _ _ => carries_keeps roles) (h.seated w (draw ▸ hw) d hd)
  · rw [initialized, total]
    exact h.filled (status hs)

theorem Built.start (h : Built key v₀ v t ds) (bounded : Bounded t) {t₁ : Tournament}
    {new : List MatchInitDescriptor} {now : Int} (opens : Opens t t₁) (chunk : Chunk rt key v t₁ new)
    (tallied : tally t₁ new.length (byesOf new) now = .ok t') (bound : new.length ≤ u16Max) :
    Built key v₀ { v with record := some t', node := place key new v.node } t' (ds ++ new) := by
  have counted := tally_ok bound tallied
  have absent {d e} (hd : d ∈ ds) (he : e ∈ new) : d.slot ≠ e.slot := by
    intro hs
    have taken := (h.taken d.slot).2 (.inr ⟨d, hd, rfl⟩)
    rw [hs, chunk.fresh e he] at taken
    cases taken
  have drawn : drawOf t' = drawOf t₁ := by simp only [counted, drawOf]
  -- the chunks before worked with the same record
  have before : (t.status = .registration ∧ ds = []) ∨ (t₁ = t ∧ Opened t) := by
    rcases opens with ⟨hs, _⟩ | ⟨hs, rfl⟩
    · exact .inl ⟨hs, h.idle hs⟩
    · exact .inr ⟨rfl, .inl hs⟩
  have initialized : t₁.matchesInitialized = t.matchesInitialized := by
    rcases opens with ⟨_, _, _, _, _, _, rfl⟩ | ⟨_, rfl⟩ <;> rfl
  refine ⟨?_, fun d hd => ?_, fun hs => ?_, ?_, fun slot => ?_, fun d hd => ?_, fun _ => ?_⟩
  · rw [List.map_append, List.nodup_append]
    refine ⟨h.distinct, chunk.distinct, fun x hx y hy he => ?_⟩
    obtain ⟨d, hd, rfl⟩ := List.mem_map.1 hx
    obtain ⟨e, he', rfl⟩ := List.mem_map.1 hy
    exact absent hd he' he
  · rcases List.mem_append.1 hd with hd | hd
    · exact h.fresh d hd
    · by_contra hne
      have taken := (h.taken d.slot).2 (.inl (Option.ne_none_iff_isSome.1 hne))
      rw [chunk.fresh d hd] at taken
      cases taken
  · rw [counted] at hs
    simp only [(opens_status opens).2] at hs
    split at hs <;> cases hs
  · rw [counted]
    simp [initialized, h.initialized]
  · simp only [place_isSome chunk.distinct, h.taken slot, List.mem_append, or_and_right, exists_or, or_assoc]
  · rcases List.mem_append.1 hd with hd | hd
    · obtain ⟨m, hm, first⟩ := h.players d hd
      refine ⟨m, ?_, first⟩
      exact (place_of_notMem _ fun e he hs => absent hd he hs.symm).trans hm
    · exact ⟨d.node key, place_of_mem _ chunk.distinct hd, fun _ => ⟨rfl, rfl⟩⟩
  · refine ⟨?_, fun mode => ?_, fun w hw d hd => ?_, fun hs => ?_⟩
    · rcases before with ⟨hs, rfl⟩ | ⟨rfl, opened⟩
      · obtain ⟨k, dimensioned⟩ := opens_dimensioned opens hs bounded.count_small
        refine ⟨k, dimensioned.of_same (by rw [counted]) (by rw [counted]) (by rw [counted]), ?_⟩
        exact dimensioned.grid chunk
      · obtain ⟨k, dimensioned, grid⟩ := (h.underway opened).dimensions
        refine ⟨k, dimensioned.of_same (by rw [counted]) (by rw [counted]) (by rw [counted]), fun d hd => ?_⟩
        exact (List.mem_append.1 hd).elim (grid d) (dimensioned.grid chunk d)
    · rw [counted] at mode ⊢
      rcases opens with ⟨_, _, _, _, _, revealed, rfl⟩ | ⟨hs, rfl⟩
      · exact (revealed mode).1
      · exact (h.underway (.inl hs)).revealed mode
    · rcases List.mem_append.1 hd with hd | hd
      · rcases before with ⟨_, rfl⟩ | ⟨rfl, opened⟩
        · simp at hd
        · exact (h.underway opened).seated w (drawn ▸ hw) d hd
      · exact chunk.seated w (drawn ▸ hw) d hd
    · rw [counted] at hs ⊢
      simp only [(opens_status opens).2] at hs ⊢
      split at hs
      · assumption
      · simp at hs

theorem built_step (h : Built key v₀ v t ds) (bounded : Bounded t) (effect : Effect rt key clock b v v')
    (ht : v.record = some t) (ht' : v'.record = some t')
    (slots : ∀ slot m, v.node slot = some m → m.slot = slot)
    (unclosed : ∀ c, b = .call (.closeTournament c) → c.tournament ≠ key) :
    Built key v₀ v' t' (ds ++ acceptedBy key b) := by
  have same {t₁ : Tournament} (h₁ : v.record = some t₁) : t = t₁ := Option.some.inj (ht.symm.trans h₁)
  have quiet (none_ : acceptedBy key b = []) (h' : Built key v₀ v' t' ds) :
      Built key v₀ v' t' (ds ++ acceptedBy key b) := by
    rwa [none_, List.append_nil]
  have update {slot : Slot} {m : MatchNode} (hm : v.node slot = some m) (m' : MatchNode)
      (players : m'.playerA = m.playerA ∧ m'.playerB = m.playerB) (q : Slot) :
      (v.node q).map (fun m => (m.playerA, m.playerB)) =
        (Function.update v.node slot (some m') q).map (fun m => (m.playerA, m.playerB)) := by
    by_cases hq : q = slot
    · subst hq
      simp [hm, players]
    · rw [Function.update_of_ne hq]
  cases effect with
  | others k other =>
      obtain rfl := same ht'
      refine quiet (acceptedBy_other other) (h.keep (fun _ => .inl rfl) rfl id fun opened => ?_)
      exact (h.underway opened).keep ⟨rfl, rfl, rfl⟩ rfl rfl rfl rfl id (.refl _)
  | create _ _ _ unopened => simp [ht] at unopened
  | join _ _ _ _ record _ _ open_ | requestSeed _ _ record _ open_ =>
      obtain rfl := same record
      obtain rfl := Option.some.inj ht'
      exact quiet rfl (h.keep (fun _ => .inl rfl) rfl id fun opened => by
        simp [Opened, open_] at opened)
  | revealSeed _ _ value record _ hidden =>
      obtain rfl := same record
      obtain rfl := Option.some.inj ht'
      refine quiet rfl (h.keep (fun _ => .inl rfl) rfl id fun opened => ?_)
      -- a bracket opened before its seed is revealed is not held to a draw
      have trust : t.settlementMode = .organizerOnly := by
        by_contra mode
        exact Bool.false_ne_true (hidden.symm.trans ((h.underway opened).revealed mode))
      have old := h.underway opened
      obtain ⟨k, dimensioned, grid⟩ := old.dimensions
      exact ⟨⟨k, dimensioned.of_same rfl rfl rfl, grid⟩, fun _ => rfl, fun w hw => by simp [drawOf, trust] at hw,
        old.filled⟩
  | partialCancel _ _ record =>
      obtain rfl := same record
      obtain rfl := Option.some.inj ht'
      exact quiet rfl (h.keep (fun _ => .inl rfl) rfl (fun hs => by cases hs) fun opened => by
        simp [Opened] at opened)
  | start c key_eq record _ opens chunk tallied bound =>
      obtain rfl := same record
      obtain rfl := Option.some.inj ht'
      have started := h.start bounded opens chunk tallied bound
      rwa [acceptedBy, if_pos key_eq]
  | edit ix c slot call key_eq address record node edits =>
      obtain rfl := same ht'
      refine quiet (acceptedBy_edit call) (h.keep (fun q => .inl (update node _ ?_ q)) rfl id fun opened => ?_)
      · cases edits <;> exact ⟨rfl, rfl⟩
      · exact (h.underway opened).keep ⟨rfl, rfl, rfl⟩ rfl rfl rfl rfl id (.refl _)
  | @advance _ ix c slot next _ m n winner p' finalizes inner address parent round index =>
      obtain rfl := same finalizes.record
      obtain rfl := Option.some.inj ht'
      have above : 0 < next.round := by
        have := congrArg Slot.round (slots next n parent)
        simp only [MatchNode.slot] at this
        omega
      refine quiet (acceptedBy_finalize finalizes.call) (h.keep (fun q => ?_) rfl id fun opened => ?_)
      · by_cases hq : q = next
        · subst hq
          exact .inr ⟨above, by simp [parent], by simp⟩
        · simp only [Function.update_of_ne hq]
          exact .inl (update finalizes.node (MatchNode.complete m winner) ⟨rfl, rfl⟩ q)
      · exact (h.underway opened).keep ⟨rfl, rfl, rfl⟩ rfl rfl rfl rfl id (finalizes_keepsRoles finalizes)
  | @conclude _ ix c slot _ m winner _ u paid finalizes =>
      obtain rfl := same finalizes.record
      obtain rfl := Option.some.inj ht'
      have opened : Opened t := .inr (.inl finalizes.running)
      refine quiet (acceptedBy_finalize finalizes.call)
        (h.keep (fun q => .inl (update finalizes.node (MatchNode.complete m winner) ⟨rfl, rfl⟩ q)) rfl
          (fun hs => by cases hs) fun _ => ?_)
      exact (h.underway opened).keep ⟨rfl, rfl, rfl⟩ rfl rfl rfl rfl (fun _ => .inl finalizes.running)
        (finalizes_keepsRoles finalizes)
  | refund ix c _ ws record _ refunding =>
      obtain rfl := same record
      obtain rfl := Option.some.inj ht'
      refine quiet (acceptedBy_refund refunding) ?_
      rcases refunding_cases refunding with ⟨rfl, _⟩ | ⟨rfl, hst⟩
      · exact h.keep (fun _ => .inl rfl) (by split <;> rfl) (fun hs => by split at hs <;> cases hs) fun opened => by
          split at opened <;> simp [Opened, Tournament.depositReturned] at opened
      · refine h.keep (fun _ => .inl rfl) (by split <;> rfl) (fun hs => ?_) fun opened => ?_
        · split at hs <;> exact hs
        · split at opened <;> simp [Opened, Tournament.depositReturned, hst] at opened
  | closeChildren c key_eq => exact absurd key_eq (unclosed c rfl)
  | closeRoot => cases ht'

end Steps

/-- No call closes accounts of the tournament. -/
def Unclosed (key : Pubkey) (past : History) : Prop :=
  Always (fun e => ∀ c, e.2 = .call (.closeTournament c) → c.tournament ≠ key) past

variable {start s : Ledger} {past : History}

theorem unclosed_of_live (course : Course rt key start past s) (ht : s.tournament? key = some t)
    (live : ¬ terminal t.status) : Unclosed key past := by
  refine course.invariant (P := fun past s => ∀ t, s.tournament? key = some t → ¬ terminal t.status →
    Unclosed key past) (fun _ _ _ => by simp [Unclosed, Always]) ?_ t ht live
  intro past s b s' earlier ih step effect later t' ht' live
  obtain ⟨t, ht⟩ := earlier.record
  have before : ¬ terminal t.status := fun ended => live ((effect_status effect ht ht').terminal ended ▸ ended)
  refine always_snoc.2 ⟨ih t ht before, fun c hc hk => ?_⟩
  obtain rfl : b = .call (.closeTournament c) := hc
  generalize viewOf s' key = v' at effect
  generalize hv : viewOf s key = v at effect
  cases effect with
  | others _ other => exact other (congrArg some hk)
  | edit _ _ _ call => cases call
  | advance _ _ _ _ finalizes | conclude _ _ _ _ _ finalizes => cases finalizes.call
  | refund _ _ _ _ _ _ refunding => cases refunding
  | closeChildren _ _ _ record ended | closeRoot _ _ _ record _ ended =>
      rw [← hv] at record
      exact before (Option.some.inj (ht.symm.trans record) ▸ ended)

theorem course_built {t₀ : Tournament} (course : Course rt key start past s)
    (ht₀ : start.tournament? key = some t₀) (registration : t₀.status = .registration)
    (unclosed : Unclosed key past) : ∃ t, s.tournament? key = some t ∧
      Built key (viewOf start key) (viewOf s key) t (accepted key past) := by
  refine course.invariant (P := fun past s => Unclosed key past → ∃ t, s.tournament? key = some t ∧
    Built key (viewOf start key) (viewOf s key) t (accepted key past)) (fun _ => ⟨t₀, ht₀, ?_⟩) ?_ unclosed
  · have idle := (reachable_bounded course.reachable ht₀).idle registration
    exact ⟨.nil, by simp [accepted], fun _ => rfl, idle.1, fun slot => by simp [accepted], by simp [accepted],
      fun opened => by simp [Opened, registration] at opened⟩
  · intro past s b s' earlier ih step effect later unclosed
    obtain ⟨before, last⟩ := always_snoc.1 unclosed
    obtain ⟨t, ht, built⟩ := ih before
    obtain ⟨t', ht'⟩ := later.record
    refine ⟨t', ht', accepted_snoc key past s b ▸ ?_⟩
    exact built_step built (reachable_bounded (reachable_run earlier.reachable earlier.run) ht) effect ht ht'
      (fun slot m hm => (node_slot earlier.wf hm).1) last

end BracketChain.Building
