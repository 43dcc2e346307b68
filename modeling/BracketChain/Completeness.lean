import BracketChain.Building
import BracketChain.Enrolment
import BracketChain.Scripts

namespace BracketChain.Completeness

open Outcome Keys Records Accounts Registration Seeding Start Settlement Envelope Refunds Program Runs Layout View
  Lifecycle Refinement Lives Bookkeeping Enrolment Matches Seats Building Scripts

def MatchNode.position (m : MatchNode) : Nat × Nat := (m.round, m.matchIndex)

/-- A chunk names a place of the bracket twice, or one where the tournament
has a match already. -/
def Duplicates (key : Pubkey) (e : Ledger × Action) : Prop :=
  ∃ c, e.2 = .call (.startTournament c) ∧ c.tournament = key ∧
    (¬ (c.descriptors.map MatchInitDescriptor.position).Nodup ∨ ∃ d ∈ c.descriptors, ∃ slot m,
      e.1.matchNode? (.matchNode key slot) = some m ∧ MatchNode.position m = MatchInitDescriptor.position d)

/-- A chunk seats a wallet in the first round whose account an earlier
tournament left open. -/
def SeatsLeftover (key : Pubkey) (born : Ledger) (e : Ledger × Action) : Prop :=
  ∃ c, e.2 = .call (.startTournament c) ∧ c.tournament = key ∧ ∃ d ∈ c.descriptors, d.round = 0 ∧
    ∃ w, (d.node key).hasPlayer w ∧ (born.participant? (.participant key w)).isSome = true

variable {rt : Runtime} {key : Pubkey} {start s : Ledger} {past : History} {t : Tournament}

theorem position_of_slot {d : MatchInitDescriptor} {m : MatchNode} (h : m.slot = d.slot) :
    MatchNode.position m = MatchInitDescriptor.position d := by
  have round : m.round = d.round := congrArg Slot.round h
  have index : m.matchIndex = d.matchIndex := congrArg Slot.matchIndex h
  rw [MatchNode.position, MatchInitDescriptor.position, round, index]

theorem positions_nodup {t₀ : Tournament} (course : Course rt key start past s)
    (ht₀ : start.tournament? key = some t₀) (registration : t₀.status = .registration)
    (unclosed : Unclosed key past) (novel : Always (fun e => ¬ Duplicates key e) past) :
    ((accepted key past).map MatchInitDescriptor.position).Nodup := by
  refine course.invariant (P := fun past _ => Unclosed key past → Always (fun e => ¬ Duplicates key e) past →
    ((accepted key past).map MatchInitDescriptor.position).Nodup) (fun _ _ => .nil) ?_ unclosed novel
  intro past s b s' earlier ih step effect later unclosed novel
  replace unclosed : Unclosed key past := (always_snoc.1 unclosed).1
  obtain ⟨novel, last⟩ := always_snoc.1 novel
  have before := ih unclosed novel
  rw [accepted_snoc]
  by_cases hb : ∃ c, b = .call (.startTournament c) ∧ c.tournament = key
  · obtain ⟨c, rfl, hk⟩ := hb
    rw [acceptedBy, if_pos hk]
    simp only [Duplicates, not_exists, not_and, not_or, not_not] at last
    obtain ⟨nodup, apart⟩ := last c rfl hk
    rw [List.map_append, List.nodup_append]
    refine ⟨before, nodup, fun x hx y hy he => ?_⟩
    obtain ⟨d, hd, rfl⟩ := List.mem_map.1 hx
    obtain ⟨e, he', rfl⟩ := List.mem_map.1 hy
    obtain ⟨t, ht, built⟩ := course_built earlier ht₀ registration unclosed
    obtain ⟨m, hm, _⟩ := built.players d hd
    exact apart e he' d.slot m hm ((position_of_slot (node_slot earlier.wf hm).1).trans he)
  · rw [acceptedBy_eq_nil fun c hc hk => hb ⟨c, hc, hk⟩, List.append_nil]
    exact before

theorem built_descriptor {v₀ v : TournamentView} {ds : List MatchInitDescriptor} (h : Built key v₀ v t ds)
    (empty : ∀ slot, v₀.node slot = none) {slot : Slot} {m : MatchNode} (hm : v.node slot = some m) :
    ∃ d ∈ ds, d.slot = slot := by
  rcases (h.taken slot).1 (by simp [hm]) with taken | placed
  · rw [empty slot] at taken
    cases taken
  · exact placed

theorem positions_nodup_iff {t₀ : Tournament} (course : Course rt key start past s)
    (ht₀ : start.tournament? key = some t₀) (registration : t₀.status = .registration)
    (empty : ∀ slot, (viewOf start key).node slot = none) (unclosed : Unclosed key past) :
    ((accepted key past).map MatchInitDescriptor.position).Nodup ↔ Always (fun e => ¬ Duplicates key e) past := by
  refine ⟨?_, positions_nodup course ht₀ registration unclosed⟩
  rintro nodup ⟨q, b⟩ he ⟨c, rfl, hk, duplicate⟩
  obtain ⟨before, after, rfl⟩ := List.append_of_mem he
  have split : accepted key (before ++ (q, .call (.startTournament c)) :: after) =
      accepted key before ++ (c.descriptors ++ accepted key after) := by
    simp [accepted, acceptedBy, hk]
  rw [split, List.map_append, List.map_append, List.nodup_append] at nodup
  obtain ⟨_, nodup, apart⟩ := nodup
  rcases duplicate with twice | ⟨d, hd, slot, m, hm, hp⟩
  · exact twice (List.nodup_append.1 nodup).1
  · obtain ⟨reach, _⟩ := course.run.split rfl
    have earlier : Course rt key start before q := by
      refine ⟨course.reachable, reach, fun q' hq' => course.kept q' (.inr ?_)⟩
      rcases hq' with rfl | ⟨b, hb⟩
      · exact ⟨_, he⟩
      · exact ⟨b, List.mem_append_left _ hb⟩
    obtain ⟨t, ht, built⟩ := course_built earlier ht₀ registration fun e he => unclosed e (List.mem_append_left _ he)
    obtain ⟨e, he, rfl⟩ := built_descriptor built empty hm
    have hp' := position_of_slot (node_slot earlier.wf hm).1
    exact apart _ (List.mem_map_of_mem he) _ (List.mem_append_left _ (List.mem_map_of_mem hd)) (hp'.symm.trans hp)

theorem built_grid {v₀ v : TournamentView} {ds : List MatchInitDescriptor} (h : Built key v₀ v t ds)
    (nodup : (ds.map MatchInitDescriptor.position).Nodup)
    (filled : t.status = .active ∨ t.status = .completed) :
    ∃ k, Dimensioned t k ∧ (ds.map MatchInitDescriptor.position).Perm (Elimination.grid (k + 1)) := by
  obtain ⟨⟨k, dims, grid⟩, _, _, full⟩ := h.underway (.inr filled)
  refine ⟨k, dims, Elimination.perm_grid nodup (fun p hp => ?_) ?_⟩
  · obtain ⟨d, hd, rfl⟩ := List.mem_map.1 hp
    exact grid d hd
  · exact Nat.le_of_eq (by rw [List.length_map, ← h.initialized, full filled, dims.total])

section Placement

variable {w : Draw} {k : Nat} {p : Pubkey → Option Participant} {ds : List MatchInitDescriptor}

/-- The match of the first round that a rank belongs to. -/
def firstMatch (k i : Nat) : Nat := if i < 2 ^ k then i else 2 ^ (k + 1) - 1 - i

theorem Carries.unique {wallet : Pubkey} {i j : Nat} (h : Carries p wallet i) (h' : Carries p wallet j) : i = j := by
  obtain ⟨x, hx, rfl⟩ := h
  obtain ⟨y, hy, rfl⟩ := h'
  rw [Option.some.inj (hx.symm.trans hy)]

theorem seated_rank (key : Pubkey) (drawn : Drawn w k) {d : MatchInitDescriptor} (seated : Seated p w d)
    (first : d.round = 0) (low : d.matchIndex < 2 ^ k) {wallet : Pubkey} (real : wallet ≠ default)
    (player : (d.node key).hasPlayer wallet) :
    ∃ i a, w.perm[i]? = some a ∧ Carries p wallet a ∧ firstMatch k i = d.matchIndex := by
  rw [Seated, if_pos first] at seated
  obtain ⟨a, o, hw, carriesA, opponent⟩ := seated
  obtain ⟨ha, ho⟩ := drawn.round0 hw
  rcases player with rfl | rfl
  · exact ⟨d.matchIndex, a, ha, carriesA, if_pos low⟩
  · split at ho
    · obtain ⟨b, hb, rfl⟩ := ho
      obtain ⟨hbye, _, carriesB⟩ := opponent
      refine ⟨2 ^ (k + 1) - 1 - d.matchIndex, b, hb, by simpa [MatchInitDescriptor.node, hbye] using carriesB, ?_⟩
      rw [firstMatch, Nat.pow_succ, if_neg (by omega)]
      omega
    · subst ho
      exact absurd (by simp [MatchInitDescriptor.node, opponent.1]) real

theorem rank_seated (key : Pubkey) (drawn : Drawn w k) {d : MatchInitDescriptor} (seated : Seated p w d)
    (first : d.round = 0) {i a : Nat} (hi : i < w.n) (ha : w.perm[i]? = some a)
    (place : firstMatch k i = d.matchIndex) : ∃ wallet, (d.node key).hasPlayer wallet ∧ Carries p wallet a := by
  rw [Seated, if_pos first] at seated
  obtain ⟨a', o, hw, carriesA, opponent⟩ := seated
  obtain ⟨ha', ho⟩ := drawn.round0 hw
  have high := drawn.high
  rw [firstMatch] at place
  split at place
  · obtain rfl : a = a' := Option.some.inj (ha.symm.trans (place ▸ ha'))
    exact ⟨_, .inl rfl, carriesA⟩
  · have rank : 2 ^ (k + 1) - 1 - d.matchIndex = i := by omega
    rw [rank, if_pos hi] at ho
    obtain ⟨b, hb, rfl⟩ := ho
    obtain rfl : a = b := Option.some.inj (ha.symm.trans hb)
    exact ⟨_, .inr rfl, by simpa [MatchInitDescriptor.node, opponent.1] using opponent.2.2⟩

/-- The two players of a first-round match carry different numbers. -/
theorem seated_apart (key : Pubkey) (drawn : Drawn w k) {d : MatchInitDescriptor} (seated : Seated p w d)
    (first : d.round = 0) {x y : Pubkey} (hx : x ≠ default) (hy : y ≠ default) (px : (d.node key).hasPlayer x)
    (py : (d.node key).hasPlayer y) {a : Nat} (cx : Carries p x a) (cy : Carries p y a) : x = y := by
  rw [Seated, if_pos first] at seated
  obtain ⟨a', o, hw, carriesA, opponent⟩ := seated
  obtain ⟨ha, ho⟩ := drawn.round0 hw
  have apart {wallet : Pubkey} (real : wallet ≠ default) (player : wallet = (d.node key).playerB)
      (carries : Carries p wallet a) (other : Carries p d.playerA a) : False := by
    obtain rfl := Carries.unique carriesA other
    split at ho
    · obtain ⟨b, hb, rfl⟩ := ho
      obtain ⟨hbye, _, carriesB⟩ := opponent
      have same : (d.node key).playerB = d.playerB := by simp [MatchInitDescriptor.node, hbye]
      obtain rfl := Carries.unique carriesB (same ▸ player ▸ carries)
      have ranks := drawn.rank_unique ha hb
      have pos := Nat.two_pow_pos k
      rw [Nat.pow_succ] at ranks
      omega
    · subst ho
      exact real (by simpa [MatchInitDescriptor.node, opponent.1] using player)
  rcases px with rfl | hx'
  · rcases py with rfl | hy'
    · rfl
    · exact (apart hy hy' cy cx).elim
  · rcases py with rfl | hy'
    · exact (apart hx hx' cx cy).elim
    · exact hx'.trans hy'.symm

end Placement

/-- A first-round match holds the players of its descriptor. -/
theorem built_player {v₀ v : TournamentView} {ds : List MatchInitDescriptor} (h : Built key v₀ v t ds)
    (empty : ∀ slot, v₀.node slot = none) (slots : ∀ slot m, v.node slot = some m → m.slot = slot) {slot : Slot}
    {m : MatchNode} (hm : v.node slot = some m) (round : m.round = 0) : ∃ d ∈ ds, d.slot = slot ∧ d.round = 0 ∧
      ∀ w, m.hasPlayer w ↔ (d.node key).hasPlayer w := by
  obtain ⟨d, hd, rfl⟩ := built_descriptor h empty hm
  have ground : d.round = 0 := (congrArg Slot.round (slots _ m hm)).symm.trans round
  obtain ⟨n, hn, first⟩ := h.players d hd
  obtain rfl : m = n := Option.some.inj (hm.symm.trans hn)
  obtain ⟨hA, hB⟩ := first ground
  exact ⟨d, hd, rfl, ground, fun w => by rw [MatchNode.hasPlayer, MatchNode.hasPlayer, hA, hB]⟩

theorem ground_low {ds : List MatchInitDescriptor} {k : Nat} {d : MatchInitDescriptor}
    (full : (ds.map MatchInitDescriptor.position).Perm (Elimination.grid (k + 1))) (hd : d ∈ ds)
    (ground : d.round = 0) : d.matchIndex < 2 ^ k := by
  have mem : (0, d.matchIndex) ∈ Elimination.grid (k + 1) :=
    full.mem_iff.1 (List.mem_map.2 ⟨d, hd, by rw [MatchInitDescriptor.position, ground]⟩)
  simpa [Nat.pow_succ] using Elimination.round_zero mem

theorem built_placed_once {v₀ v : TournamentView} {ds : List MatchInitDescriptor} {w : Draw} {k : Nat}
    (h : Built key v₀ v t ds) (empty : ∀ slot, v₀.node slot = none)
    (slots : ∀ slot m, v.node slot = some m → m.slot = slot) (drawn : Drawn w k)
    (seated : ∀ d ∈ ds, Seated v.participant w d)
    (full : (ds.map MatchInitDescriptor.position).Perm (Elimination.grid (k + 1)))
    (nodup : (ds.map MatchInitDescriptor.position).Nodup)
    {wallet : Pubkey} (real : wallet ≠ default) {a : Nat} (ha : a < w.n) (carries : Carries v.participant wallet a)
    (alone : ∀ d ∈ ds, d.round = 0 → ∀ x, (d.node key).hasPlayer x → Carries v.participant x a → x = wallet) :
    ∃! slot, ∃ m, v.node slot = some m ∧ m.round = 0 ∧ m.hasPlayer wallet := by
  obtain ⟨i, hi, rank⟩ := drawn.rank ha
  have high := drawn.high
  have low : firstMatch k i < 2 ^ k := by
    rw [firstMatch, Nat.pow_succ] at *
    split <;> omega
  have place : (0, firstMatch k i) ∈ Elimination.grid (k + 1) := by
    refine Elimination.mem_grid.2 ⟨Nat.succ_pos k, ?_⟩
    simpa [Nat.shiftRight_succ, Nat.pow_succ] using low
  obtain ⟨d, hd, hp⟩ := List.mem_map.1 (full.mem_iff.2 place)
  obtain ⟨round, index⟩ : d.round = 0 ∧ d.matchIndex = firstMatch k i := Prod.mk.inj hp
  obtain ⟨m, hm, first⟩ := h.players d hd
  obtain ⟨hA, hB⟩ := first round
  refine ⟨d.slot, ⟨m, hm, (congrArg Slot.round (slots _ m hm)).trans round, ?_⟩, ?_⟩
  · obtain ⟨x, player, number⟩ := rank_seated key drawn (seated d hd) round hi rank index.symm
    rw [alone d hd round x player number] at player
    rwa [MatchNode.hasPlayer, hA, hB]
  · rintro slot ⟨m', hm', round', player⟩
    obtain ⟨e, he, rfl, hr, players⟩ := built_player h empty slots hm' round'
    obtain ⟨j, b, hb, carries', place'⟩ :=
      seated_rank key drawn (seated e he) hr (ground_low full he hr) real ((players wallet).1 player)
    obtain rfl : a = b := Carries.unique carries carries'
    obtain rfl : i = j := drawn.rank_unique rank hb
    refine congrArg MatchInitDescriptor.slot (List.inj_on_of_nodup_map nodup he hd ?_)
    rw [hp, MatchInitDescriptor.position, hr, place']

/-- No chunk seats a leftover exactly when no accepted descriptor does. -/
theorem seats_own_iff {born : Ledger} : Always (fun e => ¬ SeatsLeftover key born e) past ↔
    ∀ d ∈ accepted key past, d.round = 0 → ∀ w, (d.node key).hasPlayer w → (viewOf born key).participant w = none := by
  constructor
  · intro own d hd ground w player
    obtain ⟨e, he, c, hc, hk, hd⟩ := mem_accepted.1 hd
    by_contra hne
    exact own e he ⟨c, hc, hk, d, hd, ground, w, player, Option.ne_none_iff_isSome.1 hne⟩
  · rintro own e he ⟨c, hc, hk, d, hd, ground, w, player, left⟩
    have none_ := own d (mem_accepted.2 ⟨e, he, c, hc, hk, hd⟩) ground w player
    rw [show born.participant? (.participant key w) = none from none_] at left
    cases left

/-- The bracket has one match at each place and no others, and everyone who
joined is in exactly one match of the first round. -/
structure Complete (key : Pubkey) (past : History) (s : Ledger) (t : Tournament) : Prop where
  counted : t.matchesInitialized = t.totalMatches
  rounds : t.bracketSize = 2 ^ t.bracketSize.log2
  within : ∀ slot m, s.matchNode? (.matchNode key slot) = some m →
    m.round < t.bracketSize.log2 ∧ m.matchIndex < t.bracketSize >>> (m.round + 1)
  one : ∀ r i, r < t.bracketSize.log2 → i < t.bracketSize >>> (r + 1) →
    ∃! slot, ∃ m, s.matchNode? (.matchNode key slot) = some m ∧ m.round = r ∧ m.matchIndex = i
  placed : ∀ w ∈ joins key past, ∃! slot, ∃ m, s.matchNode? (.matchNode key slot) = some m ∧ m.round = 0 ∧
    m.hasPlayer w

section Needed

variable {v₀ : TournamentView} {ds : List MatchInitDescriptor} (complete : Complete key past s t)
  (built : Built key v₀ (viewOf s key) t ds) (slots : ∀ slot m, (viewOf s key).node slot = some m → m.slot = slot)
include complete built slots

theorem Complete.nodup : (ds.map MatchInitDescriptor.position).Nodup := by
  refine List.Nodup.map_on (fun d hd e he hp => ?_) (List.Nodup.of_map _ built.distinct)
  obtain ⟨m, hm, _⟩ := built.players d hd
  obtain ⟨n, hn, _⟩ := built.players e he
  obtain ⟨hr, hi⟩ := complete.within _ m hm
  have same := Prod.mk.inj ((position_of_slot (slots _ n hn)).trans (hp.symm.trans (position_of_slot (slots _ m hm)).symm))
  exact List.inj_on_of_nodup_map built.distinct hd he ((complete.one _ _ hr hi).unique ⟨m, hm, rfl, rfl⟩ ⟨n, hn, same⟩)

/-- A complete bracket leaves no place to a match of an earlier tournament. -/
theorem Complete.empty (active : t.status = .active) (slot : Slot) : v₀.node slot = none := by
  obtain ⟨k, dims, full⟩ := built_grid built (complete.nodup built slots) (.inl active)
  by_contra hne
  obtain ⟨m, hm⟩ := Option.isSome_iff_exists.1 ((built.taken slot).2 (.inl (Option.ne_none_iff_isSome.1 hne)))
  obtain ⟨hr, hi⟩ := complete.within _ m hm
  have mem : MatchNode.position m ∈ Elimination.grid (k + 1) := by
    refine Elimination.mem_grid.2 ⟨?_, dims.size ▸ hi⟩
    rwa [dims.size, Nat.log2_two_pow] at hr
  obtain ⟨d, hd, hp⟩ := List.mem_map.1 (full.mem_iff.2 mem)
  obtain ⟨n, hn, _⟩ := built.players d hd
  have same := Prod.mk.inj ((position_of_slot (slots _ n hn)).trans hp)
  obtain rfl := (complete.one _ _ hr hi).unique ⟨m, hm, rfl, rfl⟩ ⟨n, hn, same⟩
  exact hne (built.fresh d hd)

/-- The seats of the first round are needed for those who joined. -/
theorem Complete.own (wf : Wellformed s) (active : t.status = .active)
    (enrolled : Enrolled v₀ (viewOf s key) (joins key past) t) {w : Draw} (draw : drawOf t = some w) :
    ∀ d ∈ ds, d.round = 0 → ∀ x, (d.node key).hasPlayer x → v₀.participant x = none := by
  intro d hd ground x player
  by_contra hne
  have nodup := complete.nodup built slots
  obtain ⟨k, dims, full⟩ := built_grid built nodup (.inl active)
  have drawn := drawOf_drawn dims draw
  have count : w.n = t.participantCount := drawOf_count draw
  have seated := (built.underway (.inr (.inl active))).seated w draw
  have low {e} (he : e ∈ ds) := ground_low full he
  have real : x ≠ default := participant_real wf (enrolled.kept x (Option.ne_none_iff_isSome.1 hne))
  obtain ⟨i, a, rank, carries, place⟩ := seated_rank key drawn (seated d hd) ground (low hd ground) real player
  -- the wallet that joined under the same number has no other seat
  obtain ⟨y, hy, carries'⟩ := enrolled.holder (count ▸ drawn.lt rank)
  have real' : y ≠ default := participant_real wf (enrolled.present y hy)
  obtain ⟨slot, ⟨m, hm, round, player'⟩, _⟩ := complete.placed y hy
  obtain ⟨e, he, _, ground', players⟩ := built_player built (complete.empty built slots active) slots hm round
  obtain ⟨j, b, rank', carries'', place'⟩ :=
    seated_rank key drawn (seated e he) ground' (low he ground') real' ((players y).1 player')
  obtain rfl := Carries.unique carries' carries''
  obtain rfl := drawn.rank_unique rank rank'
  obtain rfl : d = e := by
    refine List.inj_on_of_nodup_map nodup hd he ?_
    rw [MatchInitDescriptor.position, MatchInitDescriptor.position, ground, ground', ← place, ← place']
  obtain rfl := seated_apart key drawn (seated d hd) ground real real' player ((players y).1 player') carries carries'
  exact hne (enrolled.new x hy)

end Needed

/-- Distinct places, held by those who joined, make a complete bracket. -/
theorem built_complete {v₀ : TournamentView} {ds : List MatchInitDescriptor} (wf : Wellformed s)
    (built : Built key v₀ (viewOf s key) t ds) (empty : ∀ slot, v₀.node slot = none) (active : t.status = .active)
    (nodup : (ds.map MatchInitDescriptor.position).Nodup) (enrolled : Enrolled v₀ (viewOf s key) (joins key past) t)
    {w : Draw} (draw : drawOf t = some w)
    (own : ∀ d ∈ ds, d.round = 0 → ∀ x, (d.node key).hasPlayer x → v₀.participant x = none) :
    Complete key past s t := by
  have slots slot m (hm : (viewOf s key).node slot = some m) : m.slot = slot := (node_slot wf hm).1
  have underway := built.underway (.inr (.inl active))
  obtain ⟨k, dims, full⟩ := built_grid built nodup (.inl active)
  have log : t.bracketSize.log2 = k + 1 := by rw [dims.size, Nat.log2_two_pow]
  have place {slot : Slot} {m : MatchNode} (hm : (viewOf s key).node slot = some m) : ∃ d ∈ ds, d.slot = slot ∧
      MatchNode.position m = MatchInitDescriptor.position d := by
    obtain ⟨d, hd, rfl⟩ := built_descriptor built empty hm
    exact ⟨d, hd, rfl, position_of_slot (slots _ m hm)⟩
  refine ⟨underway.filled (.inl active), by rw [log, dims.size], fun slot m hm => ?_, fun r i hr hi => ?_,
    fun x hx => ?_⟩
  · obtain ⟨d, hd, _, hp⟩ := place hm
    have mem := Elimination.mem_grid.1 (full.mem_iff.1 (List.mem_map.2 ⟨d, hd, hp.symm⟩))
    rw [log, dims.size]
    exact mem
  · have mem : (r, i) ∈ Elimination.grid (k + 1) :=
      Elimination.mem_grid.2 ⟨by rw [log] at hr; exact hr, by rw [dims.size] at hi; exact hi⟩
    obtain ⟨d, hd, hp⟩ := List.mem_map.1 (full.mem_iff.2 mem)
    obtain ⟨m, hm, _⟩ := built.players d hd
    obtain ⟨hr', hi'⟩ := Prod.mk.inj ((position_of_slot (slots _ m hm)).trans hp)
    refine ⟨d.slot, ⟨m, hm, hr', hi'⟩, ?_⟩
    rintro slot ⟨m', hm', hr'', hi''⟩
    obtain ⟨e, he, rfl, hpe⟩ := place hm'
    refine congrArg MatchInitDescriptor.slot (List.inj_on_of_nodup_map nodup he hd ?_)
    rw [← hpe, hp, MatchNode.position, hr'', hi'']
  · obtain ⟨i, hi, number, carries⟩ := enrolled.number hx
    have real := participant_real wf (enrolled.present x hx)
    refine built_placed_once built empty slots (drawOf_drawn dims draw) (underway.seated w draw) full nodup real
      (drawOf_count draw ▸ hi) carries fun d hd ground y player carries' => ?_
    exact enrolled.alone number carries' (own d hd ground y player)

/-- A seeded tournament that becomes active is complete exactly when it found
no match of an earlier tournament at its address, no chunk opened a place of
the bracket twice, and none seated a wallet that only joined an earlier one. -/
theorem complete_iff {a : CreateTournament} {born : Ledger} (life : Life rt a born start past s)
    (mode : a.settlementMode ≠ .organizerOnly) (ht : s.tournament? a.key = some t) (active : t.status = .active) :
    Complete a.key past s t ↔ (∀ slot, born.matchNode? (.matchNode a.key slot) = none) ∧
      Always (fun e => ¬ Duplicates a.key e) past ∧ Always (fun e => ¬ SeatsLeftover a.key born e) past := by
  have live : ¬ terminal t.status := by simp [active, terminal]
  have ht₀ := life.start_record
  have enrolled := life_enrolled life ht live
  have unclosed := unclosed_of_live life.course ht live
  have slots slot m (hm : (viewOf s a.key).node slot = some m) : m.slot = slot := (node_slot life.wf hm).1
  obtain ⟨t', ht', built⟩ := course_built life.course ht₀ rfl unclosed
  obtain rfl : t = t' := Option.some.inj (ht.symm.trans ht')
  replace built : Built a.key (viewOf born a.key) (viewOf s a.key) t (accepted a.key past) :=
    built.of_node life.start_node
  obtain ⟨w, draw⟩ : ∃ w, drawOf t = some w := ⟨_, if_neg ((life.course.terms ht₀ ht).settlementMode ▸ mode)⟩
  have nodup_iff (empty : ∀ slot, (viewOf born a.key).node slot = none) :=
    positions_nodup_iff life.course ht₀ rfl (life.start_node ▸ empty) unclosed
  rw [seats_own_iff]
  constructor
  · intro complete
    have empty := complete.empty built slots active
    exact ⟨empty, (nodup_iff empty).1 (complete.nodup built slots), complete.own built slots life.wf active enrolled draw⟩
  · rintro ⟨empty, novel, own⟩
    exact built_complete life.wf built empty active ((nodup_iff empty).2 novel) enrolled draw own

def inTwoChunks : List Action :=
  fourRevealed sampleTournament.key ++
    [startWith sampleTournament.key [semi1], startWith sampleTournament.key [lastOf4, semi0]]

theorem inTwoChunks_life : SampleLife inTwoChunks :=
  script_life sampleBorn_reachable rfl (by decide) (by decide)

theorem inTwoChunks_complete : ∃ past s t, t.participantCount = 4 ∧ Complete sampleTournament.key past s t :=
  have novel := (positions_nodup_iff inTwoChunks_life.course rfl rfl (fun _ => rfl)
    (unclosed_of_live inTwoChunks_life.course rfl (by decide))).1 (by decide)
  have own : Always (fun e => ¬ SeatsLeftover sampleTournament.key sampleBorn e) _ :=
    seats_own_iff.2 fun _ _ _ w _ => sampleBorn_fresh.participant w
  ⟨_, _, _, rfl, (complete_iff inTwoChunks_life (by decide) rfl rfl).2 ⟨sampleBorn_fresh.node, novel, own⟩⟩

/-- The first semifinal again, under another bracket byte. -/
def twin : MatchInitDescriptor := { semi0 with bracket := 1 }

/-- A chunk that opens it in place of the final makes the tournament active. -/
def twinned : List Action :=
  fourRevealed sampleTournament.key ++ [startWith sampleTournament.key [semi0, semi1, twin]]

theorem twinned_life : SampleLife twinned :=
  script_life sampleBorn_reachable rfl (by decide) (by decide)

theorem twinned_incomplete : ∃ start past s t,
    Life sampleRuntime sampleTournament sampleBorn start past s ∧ Fresh sampleTournament.key sampleBorn ∧
    s.tournament? sampleTournament.key = some t ∧ t.status = .active ∧
    ¬ Complete sampleTournament.key past s t := by
  refine ⟨_, _, _, _, twinned_life, sampleBorn_fresh, rfl, rfl, fun complete => ?_⟩
  have same : semi0.slot = twin.slot :=
    (complete.one 0 0 (by decide) (by decide)).unique ⟨_, rfl, rfl, rfl⟩ ⟨_, rfl, rfl, rfl⟩
  exact absurd same (by decide)

end BracketChain.Completeness
