import BracketChain.Reports
import BracketChain.Standings

namespace BracketChain.Filling

open Outcome Keys Records Accounts Registration Start Settlement Envelope Refunds Program Runs Layout View Lifecycle
  Refinement Lives Bookkeeping Enrolment Matches Reports Seats Elimination Building Completeness FixedDraw Standings

variable {rt : Runtime} {key : Pubkey} {clock : Clock} {b : Action} {v v' : TournamentView} {t t' : Tournament}
  {ds : List MatchInitDescriptor}

/-- The matches that chunks have placed and nobody has played yet. -/
structure Placed (key : Pubkey) (v : TournamentView) (t : Tournament) (ds : List MatchInitDescriptor) : Prop where
  faces : ∀ d ∈ ds, ∃ m, v.node d.slot = some m ∧ MatchNode.face m = MatchNode.face (d.node key)
  byes : t.matchesReported = byesOf ds

theorem placed_step (h : Placed key v t ds) (effect : Effect rt key clock b v v') (ht : v.record = some t)
    (ht' : v'.record = some t') (before : t.status = .registration ∨ t.status = .pendingBracketInit) :
    Placed key v' t' (ds ++ acceptedBy key b) := by
  have same {t₁ : Tournament} (h₁ : v.record = some t₁) : t = t₁ := Option.some.inj (ht.symm.trans h₁)
  have live : ¬ terminal t.status := by rcases before with hs | hs <;> simp [hs, terminal]
  have idle : t.status ≠ .active := by rcases before with hs | hs <;> simp [hs]
  have quiet (none_ : acceptedBy key b = [])
      (faces : ∀ d ∈ ds, ∃ m, v'.node d.slot = some m ∧ MatchNode.face m = MatchNode.face (d.node key))
      (reported : t'.matchesReported = t.matchesReported) : Placed key v' t' (ds ++ acceptedBy key b) := by
    rw [none_, List.append_nil]
    exact ⟨faces, reported.trans h.byes⟩
  cases effect with
  | others k other =>
      obtain rfl := same ht'
      exact quiet (acceptedBy_other other) h.faces rfl
  | create _ _ _ unopened => simp [ht] at unopened
  | join _ _ _ _ record | requestSeed _ _ record | revealSeed _ _ _ record | partialCancel _ _ record =>
      obtain rfl := same record
      obtain rfl := Option.some.inj ht'
      exact quiet rfl h.faces rfl
  | start c key_eq record _ opens chunk tallied bound =>
      obtain rfl := same record
      obtain rfl := Option.some.inj ht'
      rw [acceptedBy, if_pos key_eq]
      refine ⟨fun d hd => ?_, ?_⟩
      · rcases List.mem_append.1 hd with hd | hd
        · obtain ⟨m, hm, face⟩ := h.faces d hd
          have absent : ∀ e ∈ c.descriptors, e.slot ≠ d.slot := by
            intro e he hs
            have fresh := chunk.fresh e he
            rw [hs, hm] at fresh
            cases fresh
          exact ⟨m, (place_of_notMem _ absent).trans hm, face⟩
        · exact ⟨d.node key, place_of_mem _ chunk.distinct hd, rfl⟩
      · rw [tally_ok bound tallied, byesOf_append, ← h.byes]
        rcases opens with ⟨_, _, _, _, _, _, rfl⟩ | ⟨_, rfl⟩ <;> rfl
  | edit ix c slot call key_eq address record node edits =>
      obtain rfl := same ht'
      refine quiet (acceptedBy_edit call) (fun d hd => ?_) rfl
      obtain ⟨m, hm, face⟩ := h.faces d hd
      by_cases hs : d.slot = slot
      · subst hs
        obtain rfl := Option.some.inj (hm.symm.trans node)
        exact ⟨_, Function.update_self .., (edits_face edits).trans face⟩
      · exact ⟨m, (Function.update_of_ne hs _ _).trans hm, face⟩
  | advance _ _ _ _ finalizes | conclude _ _ _ _ _ finalizes =>
      obtain rfl := same finalizes.record
      exact absurd finalizes.running idle
  | refund ix c _ ws record _ refunding =>
      obtain rfl := same record
      obtain rfl := Option.some.inj ht'
      obtain ⟨_, rfl, _⟩ := refunding_status refunding
      refine quiet (acceptedBy_refund refunding) h.faces ?_
      split <;> rfl
  | closeChildren _ _ _ record ended =>
      obtain rfl := same record
      exact absurd ended live
  | closeRoot => cases ht'

variable {w : Draw} {k : Nat} {p : Pubkey → Option Participant} {d e : MatchInitDescriptor}

theorem Placed.board (h : Placed key v t ds) (hd : d ∈ ds) (canonical : Canonical rt key d) :
    (boardOf rt key v.node).left (MatchInitDescriptor.position d) = seat d.playerA ∧
      (boardOf rt key v.node).right (MatchInitDescriptor.position d) = seat (d.node key).playerB ∧
      (boardOf rt key v.node).winner (MatchInitDescriptor.position d) = if d.bye then some d.playerA else none := by
  obtain ⟨m, hm, face⟩ := h.faces d hd
  obtain ⟨status, hA, hB, winner⟩ := face_eq face
  rw [canonical] at hm
  rw [MatchInitDescriptor.position, boardOf_left hm, boardOf_right hm, boardOf_winner hm, hA, hB]
  refine ⟨rfl, rfl, ?_⟩
  by_cases hb : d.bye = true
  · have done : m.status = .completed := status.trans (placed_status d |>.2 hb)
    rw [if_pos hb, result_eq_some.2 ⟨done, winner.trans (if_pos hb)⟩]
  · have open_ : m.status ≠ .completed := fun done => hb ((placed_status d).1 (status.symm.trans done))
    rw [if_neg hb, result_eq_none.2 open_]

theorem slot_feeds (drawn : Drawn w k) (unique : Unique p w.n) (real : ∀ x i, Carries p x i → x ≠ default)
    {player : Pubkey} {parent : Nat} (slot : SlotSeated p w player parent) (seated : Seated p w e)
    (round : e.round = 0) (index : e.matchIndex = parent) :
    seat player = if e.bye then some e.playerA else none := by
  subst index
  rw [Seated, if_pos round] at seated
  obtain ⟨a, o, hw, carries, opponent⟩ := seated
  obtain ⟨a', o', hw', slot⟩ := slot
  obtain ⟨rfl, rfl⟩ : a = a' ∧ o = o' := by simpa using hw.symm.trans hw'
  have rank := (drawn.round0 hw).1
  cases o with
  | none =>
      rw [if_pos rfl] at slot
      rw [if_pos opponent.1, seat_eq_some]
      exact ⟨unique a (drawn.lt rank) _ _ slot.2 carries, real _ _ carries⟩
  | some b =>
      rw [if_neg (by simp)] at slot
      rw [opponent.1, slot]
      rfl

theorem seated_no_bye (seated : Seated p w d) (above : d.round ≠ 0) : d.bye = false := by
  rw [Seated, if_neg above] at seated
  exact seated.1

theorem seated_feeds (drawn : Drawn w k) (unique : Unique p w.n) (real : ∀ x i, Carries p x i → x ≠ default)
    (hd : Seated p w d) (he : Seated p w e) (round : d.round = e.round + 1) :
    (e.matchIndex = 2 * d.matchIndex → seat d.playerA = if e.bye then some e.playerA else none) ∧
      (e.matchIndex = 2 * d.matchIndex + 1 → seat d.playerB = if e.bye then some e.playerA else none) := by
  have above : d.round ≠ 0 := by omega
  rw [Seated, if_neg above] at hd
  obtain ⟨_, hd⟩ := hd
  by_cases first : e.round = 0
  · rw [if_pos (by omega)] at hd
    rw [Nat.mul_comm 2]
    exact ⟨slot_feeds drawn unique real hd.1 he first, slot_feeds drawn unique real hd.2 he first⟩
  · rw [if_neg (by omega)] at hd
    simp [hd.1, hd.2, seated_no_bye he first, seat]

/-- The board of a bracket that has just been filled. -/
theorem Placed.valid (h : Placed key v t ds) (canonical : ∀ d ∈ ds, Canonical rt key d)
    (places : (ds.map MatchInitDescriptor.position).Perm (grid (k + 1))) (drawn : Drawn w k)
    (unique : Unique v.participant w.n) (real : ∀ x i, Carries v.participant x i → x ≠ default)
    (seated : ∀ d ∈ ds, Seated v.participant w d) : (boardOf rt key v.node).Valid (k + 1) := by
  have board {d} (hd : d ∈ ds) := h.board hd (canonical d hd)
  have found {p : Nat × Nat} (hp : p ∈ grid (k + 1)) : ∃ d ∈ ds, MatchInitDescriptor.position d = p :=
    List.mem_map.1 (places.mem_iff.2 hp)
  have feeds {d e} (hd : d ∈ ds) (he : e ∈ ds) := seated_feeds drawn unique real (seated d hd) (seated e he)
  refine ⟨fun r i hp => ?_, fun r i hp => ?_, fun p hp x hx => ?_, fun r i hp won => ?_⟩
  · obtain ⟨d, hd, place⟩ := found hp
    obtain ⟨e, he, below⟩ := found (left_mem hp)
    obtain ⟨hr, hi⟩ := Prod.mk.inj place
    obtain ⟨hr', hi'⟩ := Prod.mk.inj below
    rw [← place, ← below, (board hd).1, (board he).2.2]
    exact (feeds hd he (by omega)).1 (by omega)
  · obtain ⟨d, hd, place⟩ := found hp
    obtain ⟨e, he, below⟩ := found (right_mem hp)
    obtain ⟨hr, hi⟩ := Prod.mk.inj place
    obtain ⟨hr', hi'⟩ := Prod.mk.inj below
    have inner : d.bye = false := seated_no_bye (seated d hd) (by omega)
    have playerB : (d.node key).playerB = d.playerB := by simp [MatchInitDescriptor.node, inner]
    rw [← place, ← below, (board hd).2.1, (board he).2.2, playerB]
    exact (feeds hd he (by omega)).2 (by omega)
  · -- the only winners are those of the byes
    obtain ⟨d, hd, rfl⟩ := found hp
    rw [(board hd).2.2] at hx
    split at hx
    · obtain rfl := Option.some.inj hx
      refine .inl ((board hd).1.trans (seat_eq_some.2 ⟨rfl, ?_⟩))
      have first : d.round = 0 := by
        by_contra above
        exact Bool.false_ne_true ((seated_no_bye (seated d hd) above).symm.trans ‹_›)
      have s := seated d hd
      rw [Seated, if_pos first] at s
      obtain ⟨a, _, _, carries, _⟩ := s
      exact real _ a carries
    · cases hx
  · obtain ⟨d, hd, place⟩ := found hp
    have inner := seated_no_bye (seated d hd) (by rw [(Prod.mk.inj place).1]; omega)
    rw [← place, (board hd).2.2, inner] at won
    cases won

theorem placed_playable {m : MatchNode} (face : MatchNode.face m = MatchNode.face (d.node key))
    (open_ : m.status ≠ .completed) :
    m.status = .active ↔ m.playerA ≠ default ∧ m.playerB ≠ default := by
  obtain ⟨status, hA, hB, _⟩ := face_eq face
  have bye : d.bye = false := by
    by_contra hb
    exact open_ (status.trans ((placed_status d).2 (by simpa using hb)))
  rw [status, hA, hB]
  simp only [MatchInitDescriptor.node, MatchInitDescriptor.status, bye]
  split <;> simp_all

/-- The matches of a filled bracket lie at the canonical addresses. -/
theorem built_taken {v₀ : TournamentView} (built : Built key v₀ v t ds) (empty : ∀ slot, v₀.node slot = none)
    (canonical : ∀ d ∈ ds, Canonical rt key d) (places : (ds.map MatchInitDescriptor.position).Perm (grid (k + 1)))
    (slot : Slot) : (v.node slot).isSome = true ↔ ∃ p ∈ grid (k + 1), canonicalSlot rt key p.1 p.2 = slot := by
  simp only [built.taken slot, empty slot, Option.isSome_none, Bool.false_eq_true, false_or]
  constructor
  · rintro ⟨d, hd, rfl⟩
    exact ⟨_, places.mem_iff.1 (List.mem_map_of_mem hd), (canonical d hd).symm⟩
  · rintro ⟨p, hp, rfl⟩
    obtain ⟨d, hd, rfl⟩ := List.mem_map.1 (places.mem_iff.2 hp)
    exact ⟨d, hd, canonical d hd⟩

theorem Placed.decided (h : Placed key v t ds) (canonical : ∀ d ∈ ds, Canonical rt key d)
    (places : (ds.map MatchInitDescriptor.position).Perm (grid (k + 1))) :
    t.matchesReported = (boardOf rt key v.node).decided (k + 1) := by
  rw [h.byes, byesOf, Board.decided, ← places.countP_eq, List.countP_map, ← List.countP_eq_length_filter]
  refine List.countP_congr fun d hd => ?_
  rw [Function.comp_apply, (h.board hd (canonical d hd)).2.2]
  cases d.bye <;> simp

/-- A bracket that has just been filled stands. -/
theorem Placed.standing {v₀ : TournamentView} (h : Placed key v t ds) (built : Built key v₀ v t ds)
    (empty : ∀ slot, v₀.node slot = none) (canonical : ∀ d ∈ ds, Canonical rt key d) (active : t.status = .active)
    (mode : t.settlementMode ≠ .organizerOnly) (unique : Unique v.participant t.participantCount)
    (real : ∀ x i, Carries v.participant x i → x ≠ default) : ∃ k, Standing rt key k v.node t := by
  obtain ⟨k, dims, places⟩ := built_grid built (canonical_nodup built.distinct canonical) (.inl active)
  obtain ⟨w, draw⟩ : ∃ w, drawOf t = some w := ⟨_, if_neg mode⟩
  have drawn := drawOf_drawn dims draw
  have count := drawOf_count draw
  have seated := (built.underway (.inr (.inl active))).seated w draw
  refine ⟨k, dims, built_taken built empty canonical places,
    h.valid canonical places drawn (count ▸ unique) real seated, fun slot m hm open_ => ?_,
    h.decided canonical places, fun done => ?_⟩
  · obtain ⟨d, hd, rfl⟩ := built_descriptor built empty hm
    obtain ⟨n, hn, face⟩ := h.faces d hd
    obtain rfl : m = n := Option.some.inj (hm.symm.trans hn)
    exact placed_playable face open_
  · exact absurd (done.symm.trans active) (by simp)

section Life

variable {a : CreateTournament} {born start s : Ledger} {past : History} (life : Life rt a born start past s)
include life

/-- What the steps keep holds along a life in which no account is closed and
all addresses are canonical. -/
theorem canonical_invariant {P : History → Ledger → Prop} (unclosed : Unclosed a.key past)
    (canonical : ∀ d ∈ accepted a.key past, Canonical rt a.key d) (init : P [] start)
    (keep : ∀ past s b t, Life rt a born start past s → P past s → Step rt s b t →
      Effect rt a.key s.clock b (viewOf s a.key) (viewOf t a.key) →
      Life rt a born start (past ++ [(s, b)]) t → Unclosed a.key (past ++ [(s, b)]) →
      (∀ d ∈ accepted a.key (past ++ [(s, b)]), Canonical rt a.key d) → P (past ++ [(s, b)]) t) : P past s := by
  refine life.invariant (P := fun past s => Unclosed a.key past → (∀ d ∈ accepted a.key past, Canonical rt a.key d) →
    P past s) (fun _ _ => init) ?_ unclosed canonical
  intro past s b t earlier ih step effect later unclosed canonical
  have before := ih (always_snoc.1 unclosed).1 (canonical_sublist (List.sublist_append_left past _) canonical)
  exact keep past s b t earlier before step effect later unclosed canonical

/-- Until it is activated a tournament has the matches that its chunks placed. -/
theorem life_placed (ht : s.tournament? a.key = some t)
    (opening : t.status = .registration ∨ t.status = .pendingBracketInit) :
    Placed a.key (viewOf s a.key) t (accepted a.key past) := by
  refine life.invariant (P := fun past s => ∀ t, s.tournament? a.key = some t →
    t.status = .registration ∨ t.status = .pendingBracketInit → Placed a.key (viewOf s a.key) t (accepted a.key past))
    ?_ ?_ t ht opening
  · intro t ht _
    obtain rfl := Option.some.inj (ht.symm.trans life.start_record)
    exact ⟨by simp [accepted], rfl⟩
  · intro past s b s' earlier ih step effect later t' ht' opening
    obtain ⟨t, ht⟩ := earlier.record
    have before := (effect_status effect ht ht').opening opening
    exact accepted_snoc a.key past s b ▸ placed_step (ih t ht before) effect ht ht' before

/-- The step that activates a tournament included. -/
theorem life_placed_snoc {s' : Ledger} (effect : Effect rt a.key s.clock b (viewOf s a.key) (viewOf s' a.key))
    (ht : s.tournament? a.key = some t) (ht' : s'.tournament? a.key = some t')
    (before : t.status = .registration ∨ t.status = .pendingBracketInit) :
    Placed a.key (viewOf s' a.key) t' (accepted a.key (past ++ [(s, b)])) :=
  accepted_snoc a.key past s b ▸ placed_step (life_placed life ht before) effect ht ht' before

end Life

end BracketChain.Filling
