import BracketChain.Matches
import Mathlib.Data.Set.Card

namespace BracketChain.Reports

open Outcome Keys Records Accounts Registration Start Settlement Envelope Refunds Program Runs Layout View Lifecycle
  Refinement Lives Matches

theorem encard_list {α : Type} {xs : List α} (h : xs.Nodup) : {x | x ∈ xs}.encard = xs.length := by
  classical
  rw [← List.coe_toFinset, Set.encard_coe_eq_coe_finsetCard, List.toFinset_card_of_nodup h]

theorem encard_map {α β : Type} {f : α → β} {xs : List α} (h : (xs.map f).Nodup) :
    {y | ∃ x ∈ xs, f x = y}.encard = xs.length := by
  have image : {y | ∃ x ∈ xs, f x = y} = {y | y ∈ xs.map f} := by
    ext y
    simp
  rw [image, encard_list h, List.length_map]

/-- A completed match is open at the slot. -/
def CompletedAt (node : Slot → Option MatchNode) (slot : Slot) : Prop :=
  ∃ m, node slot = some m ∧ m.status = .completed

variable {rt : Runtime} {key : Pubkey} {clock : Clock} {node₀ node node' : Slot → Option MatchNode}
  {t t' : Tournament} {ever : Set Slot}

theorem update_completed (node : Slot → Option MatchNode) (slot : Slot) (m' : MatchNode) (q : Slot) :
    CompletedAt (Function.update node slot (some m')) q ↔
      if q = slot then m'.status = .completed else CompletedAt node q := by
  by_cases h : q = slot
  · subst h
    simp [CompletedAt]
  · simp [CompletedAt, h]

theorem completed_edit {slot : Slot} {ix : Instruction} {m m' : MatchNode} (hm : node slot = some m)
    (edits : Edits t clock m ix m') (q : Slot) :
    CompletedAt (Function.update node slot (some m')) q ↔ CompletedAt node q := by
  rw [update_completed]
  split
  · subst q
    simp [CompletedAt, hm, edits_status edits]
  · rfl

theorem completed_complete (node : Slot → Option MatchNode) (slot : Slot) (m : MatchNode) (winner : Pubkey) (q : Slot) :
    CompletedAt (Function.update node slot (some (MatchNode.complete m winner))) q ↔ CompletedAt node q ∨ q = slot := by
  rw [update_completed]
  split <;> simp [*, MatchNode.complete]

theorem completed_advance {slot : Slot} {n : MatchNode} (hn : node slot = some n) {i : Nat} {winner : Pubkey}
    (kept : n.status = .completed → SameResult n (MatchNode.advance n i winner)) (q : Slot) :
    CompletedAt (Function.update node slot (some (MatchNode.advance n i winner))) q ↔ CompletedAt node q := by
  rw [update_completed]
  split
  · subst q
    simp only [CompletedAt, hn, Option.some.injEq, exists_eq_left']
    by_cases done : n.status = .completed
    · simp [done, (kept done).status]
    · simp [done, advance_incomplete i winner done]
  · rfl

theorem placed_status (d : MatchInitDescriptor) : (d.node key).status = .completed ↔ d.bye = true := by
  simp only [MatchInitDescriptor.node, MatchInitDescriptor.status]
  cases d.bye <;> simp
  split <;> simp

theorem place_completed {ds : List MatchInitDescriptor} (distinct : (ds.map MatchInitDescriptor.slot).Nodup)
    (fresh : ∀ d ∈ ds, node d.slot = none) (slot : Slot) : CompletedAt (place key ds node) slot ↔
      CompletedAt node slot ∨ ∃ d ∈ ds.filter fun d => d.bye, d.slot = slot := by
  by_cases h : ∃ d ∈ ds, d.slot = slot
  · obtain ⟨d, hd, rfl⟩ := h
    simp only [CompletedAt, place_of_mem node distinct hd, fresh d hd, reduceCtorEq, false_and, exists_false, false_or,
      Option.some.injEq, exists_eq_left', placed_status, List.mem_filter]
    refine ⟨fun hb => ⟨d, ⟨hd, hb⟩, rfl⟩, ?_⟩
    rintro ⟨e, ⟨he, hb⟩, hs⟩
    obtain rfl := List.inj_on_of_nodup_map distinct he hd hs
    exact hb
  · have absent : ¬ ∃ d ∈ ds.filter fun d => d.bye, d.slot = slot := by
      rintro ⟨d, hd, hs⟩
      exact h ⟨d, (List.mem_filter.1 hd).1, hs⟩
    simp only [CompletedAt, place_of_notMem node (fun d hd hs => h ⟨d, hd, hs⟩), absent, or_false]

/-- The counters of a tournament against the slots that were ever completed.
The slots taken in `node₀` are leftovers of earlier tournaments. -/
structure Reported (node₀ node : Slot → Option MatchNode) (t : Tournament) (ever : Set Slot) : Prop where
  completed : ∀ slot, (node slot).isSome = true → (CompletedAt node slot ↔ slot ∈ ever)
  fresh : ∀ slot ∈ ever, node₀ slot = none
  count : ever.encard = t.matchesReported
  kept : ¬ terminal t.status → ∀ slot, slot ∈ ever ∨ (node₀ slot).isSome = true → (node slot).isSome = true
  placed : ¬ terminal t.status →
    {slot | (node slot).isSome = true ∧ node₀ slot = none}.encard = t.matchesInitialized
  filled : t.status = .active → t.matchesInitialized = t.totalMatches
  bound : t.matchesReported ≤ t.totalMatches

theorem Reported.seen (h : Reported node₀ node t ever) {slot : Slot} (hs : CompletedAt node slot) : slot ∈ ever := by
  obtain ⟨m, hm, _⟩ := id hs
  exact (h.completed slot (by simp [hm])).1 hs

/-- A slot that is empty was so when the tournament was created, and ever since. -/
theorem Reported.unseen (h : Reported node₀ node t ever) (live : ¬ terminal t.status) {slot : Slot}
    (absent : node slot = none) : slot ∉ ever ∧ node₀ slot = none := by
  by_contra hne
  have before : slot ∈ ever ∨ (node₀ slot).isSome = true := by
    rw [Option.isSome_iff_ne_none]
    tauto
  have taken := h.kept live slot before
  rw [absent] at taken
  cases taken

theorem Reported.keep (h : Reported node₀ node t ever) (opened : ∀ slot, (node' slot).isSome = (node slot).isSome)
    (done : ∀ slot, CompletedAt node' slot ↔ CompletedAt node slot)
    (counters : t'.matchesInitialized = t.matchesInitialized ∧ t'.matchesReported = t.matchesReported ∧
      t'.totalMatches = t.totalMatches)
    (status : t'.status = t.status ∨ terminal t'.status) :
    Reported node₀ node' t' (ever ∪ {slot | CompletedAt node' slot}) := by
  obtain ⟨hi, hr, ht⟩ := counters
  have union : ever ∪ {slot | CompletedAt node' slot} = ever :=
    Set.union_eq_left.2 fun slot hs => h.seen ((done slot).1 hs)
  rw [union]
  have before (open_ : ¬ terminal t'.status) : t'.status = t.status := status.resolve_right open_
  refine ⟨fun slot hs => (done slot).trans (h.completed slot (opened slot ▸ hs)), h.fresh, hr ▸ h.count,
    fun open_ slot hs => opened slot ▸ h.kept (before open_ ▸ open_) slot hs, fun open_ => ?_, fun active => ?_,
    hr ▸ ht ▸ h.bound⟩
  · simp only [opened, hi]
    exact h.placed (before open_ ▸ open_)
  · have running : t.status = .active := (before (by simp [active, terminal])) ▸ active
    rw [hi, ht, h.filled running]

theorem Reported.finish (h : Reported node₀ node t ever) {slot : Slot} (running : t.status = .active)
    (own : node₀ slot = none) (taken : (node slot).isSome = true) (open_ : ¬ CompletedAt node slot)
    (opened : ∀ q, (node' q).isSome = (node q).isSome)
    (done : ∀ q, CompletedAt node' q ↔ CompletedAt node q ∨ q = slot)
    (counters : t'.matchesInitialized = t.matchesInitialized ∧ t'.matchesReported = t.matchesReported + 1 ∧
      t'.totalMatches = t.totalMatches)
    (status : t'.status = t.status ∨ terminal t'.status) :
    Reported node₀ node' t' (ever ∪ {slot | CompletedAt node' slot}) := by
  obtain ⟨hi, hr, ht⟩ := counters
  have union : ever ∪ {q | CompletedAt node' q} = insert slot ever := by
    ext q
    simp only [Set.mem_union, Set.mem_ofPred_eq, done, Set.mem_insert_iff, ← or_assoc]
    rw [or_iff_left_of_imp h.seen, or_comm]
  rw [union]
  have live : ¬ terminal t.status := by simp [running, terminal]
  have new : slot ∉ ever := fun hs => open_ ((h.completed slot taken).2 hs)
  have before (alive : ¬ terminal t'.status) : t'.status = t.status := status.resolve_right alive
  have count : (insert slot ever).encard = (t.matchesReported + 1 : Nat) := by
    rw [Set.encard_insert_of_notMem new, h.count]
    rfl
  refine ⟨fun q hq => ?_, ?_, hr ▸ count, fun alive q hq => ?_, fun alive => ?_, fun _ => ?_, ?_⟩
  · rw [done, h.completed q (opened q ▸ hq), Set.mem_insert_iff, or_comm]
  · rintro q (rfl | hq)
    · exact own
    · exact h.fresh q hq
  · rw [opened]
    rcases hq with (rfl | hq) | hq
    · exact taken
    · exact h.kept live q (.inl hq)
    · exact h.kept live q (.inr hq)
  · simp only [opened, hi]
    exact h.placed live
  · rw [hi, ht, h.filled running]
  · -- the completed slots are among those placed, of which there are as many as planned
    have sub : insert slot ever ⊆ {q | (node q).isSome = true ∧ node₀ q = none} := by
      rintro q (rfl | hq)
      · exact ⟨taken, own⟩
      · exact ⟨h.kept live q (.inl hq), h.fresh q hq⟩
    have le := Set.encard_le_encard sub
    rw [count, h.placed live, h.filled running, Nat.cast_le] at le
    omega

theorem Reported.close (h : Reported node₀ node t ever) (ended : terminal t.status)
    (sub : ∀ slot m, node' slot = some m → node slot = some m) :
    Reported node₀ node' t (ever ∪ {slot | CompletedAt node' slot}) := by
  have union : ever ∪ {slot | CompletedAt node' slot} = ever := by
    refine Set.union_eq_left.2 ?_
    rintro slot ⟨m, hm, done⟩
    exact h.seen ⟨m, sub slot m hm, done⟩
  rw [union]
  refine ⟨fun slot hs => ?_, h.fresh, h.count, fun live => absurd ended live, fun live => absurd ended live,
    h.filled, h.bound⟩
  obtain ⟨m, hm⟩ := Option.isSome_iff_exists.1 hs
  rw [← h.completed slot (by simp [sub slot m hm]), CompletedAt, CompletedAt, hm, sub slot m hm]

theorem Reported.start (h : Reported node₀ node t ever) {t₁ : Tournament} {v : TournamentView}
    {ds : List MatchInitDescriptor} {now : Int} (opens : Opens t t₁) (hv : v.node = node)
    (chunk : Chunk rt key v t₁ ds) (tallied : tally t₁ ds.length (byesOf ds) now = .ok t')
    (bound : ds.length ≤ u16Max) (fits : t.matchesReported + byesOf ds ≤ t₁.totalMatches) :
    Reported node₀ (place key ds node) t' (ever ∪ {slot | CompletedAt (place key ds node) slot}) := by
  subst hv
  have union : ever ∪ {slot | CompletedAt (place key ds v.node) slot} =
      ever ∪ {slot | ∃ d ∈ ds.filter fun d => d.bye, d.slot = slot} := by
    ext slot
    simp only [Set.mem_union, Set.mem_ofPred_eq, place_completed chunk.distinct chunk.fresh, ← or_assoc]
    rw [or_iff_left_of_imp h.seen]
  rw [union]
  obtain ⟨before, _⟩ := opens_status opens
  have live : ¬ terminal t.status := by rcases before with before | before <;> simp [before, terminal]
  have counts : t₁.matchesInitialized = t.matchesInitialized ∧ t₁.matchesReported = t.matchesReported := by
    rcases opens with ⟨_, _, _, _, _, _, rfl⟩ | ⟨_, rfl⟩ <;> exact ⟨rfl, rfl⟩
  have unseen {d} (hd : d ∈ ds) := h.unseen live (chunk.fresh d hd)
  have counted := tally_ok bound tallied
  refine ⟨fun slot hs => ?_, ?_, ?_, fun _ slot hs => ?_, fun _ => ?_, fun active => ?_, ?_⟩
  · rw [place_completed chunk.distinct chunk.fresh, Set.mem_union]
    refine or_congr_left' fun unplaced => ?_
    rcases (place_isSome chunk.distinct slot).1 hs with hs | ⟨d, hd, rfl⟩
    · exact h.completed slot hs
    · simp [CompletedAt, chunk.fresh d hd, (unseen hd).1]
  · rintro slot (hs | ⟨d, hd, rfl⟩)
    · exact h.fresh slot hs
    · exact (unseen (List.mem_filter.1 hd).1).2
  · have disjoint : Disjoint ever {slot | ∃ d ∈ ds.filter fun d => d.bye, d.slot = slot} := by
      rw [Set.disjoint_left]
      rintro slot hs ⟨d, hd, rfl⟩
      exact (unseen (List.mem_filter.1 hd).1).1 hs
    have nodup : ((ds.filter fun d => d.bye).map MatchInitDescriptor.slot).Nodup :=
      chunk.distinct.sublist (List.filter_sublist.map _)
    rw [Set.encard_union_eq disjoint, h.count, encard_map nodup, counted, counts.2]
    rfl
  · rw [place_isSome chunk.distinct]
    rcases hs with (hs | ⟨d, hd, rfl⟩) | hs
    · exact .inl (h.kept live slot (.inl hs))
    · exact .inr ⟨d, (List.mem_filter.1 hd).1, rfl⟩
    · exact .inl (h.kept live slot (.inr hs))
  · have split : {slot | (place key ds v.node slot).isSome = true ∧ node₀ slot = none} =
        {slot | (v.node slot).isSome = true ∧ node₀ slot = none} ∪ {slot | ∃ d ∈ ds, d.slot = slot} := by
      ext slot
      simp only [Set.mem_ofPred_eq, place_isSome chunk.distinct, Set.mem_union]
      constructor
      · rintro ⟨hs | hs, hn⟩
        · exact .inl ⟨hs, hn⟩
        · exact .inr hs
      · rintro (⟨hs, hn⟩ | ⟨d, hd, rfl⟩)
        · exact ⟨.inl hs, hn⟩
        · exact ⟨.inr ⟨d, hd, rfl⟩, (unseen hd).2⟩
    have disjoint : Disjoint {slot | (v.node slot).isSome = true ∧ node₀ slot = none}
        {slot | ∃ d ∈ ds, d.slot = slot} := by
      rw [Set.disjoint_left]
      rintro slot ⟨hs, _⟩ ⟨d, hd, rfl⟩
      rw [chunk.fresh d hd] at hs
      cases hs
    rw [split, Set.encard_union_eq disjoint, h.placed live, encard_map chunk.distinct, counted, counts.1]
    rfl
  · rw [counted] at active ⊢
    simp only at active ⊢
    split at active
    · assumption
    · rw [(opens_status opens).2] at active
      cases active
  · rw [counted]
    simpa [counts.2] using fits

end BracketChain.Reports
