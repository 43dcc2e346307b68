import BracketChain.Scripts

namespace BracketChain.Reclaim

open Outcome Keys Records Accounts Refunds Program Layout View Confinement Refinement Scripts

variable {rt : Runtime} {s s' m : Ledger} {key p q dest organizer : Pubkey} {closed ps children : List Pubkey}

/-- One account after the other is drained into `dest`. -/
def drainAll (s : Ledger) (dest : Pubkey) (ps : List Pubkey) : Ledger := ps.foldl (fun s p => s.drainAccount p dest) s

section Drains

theorem drain_accounts : (s.drainAccount p dest).accounts q = if q = p then .system else s.accounts q :=
  Function.update_apply _ _ _ _

theorem drain_lamports : (s.drainAccount p dest).lamports q =
    if q = p then 0 else if q = dest then s.lamports dest + s.lamports p else s.lamports q := by
  simp only [Ledger.drainAccount, Function.update_apply]

theorem drainAll_accounts : (drainAll s dest ps).accounts q = if q ∈ ps then .system else s.accounts q := by
  induction ps generalizing s with
  | nil => rfl
  | cons p ps ih =>
      rw [drainAll, List.foldl_cons, ← drainAll, ih, drain_accounts]
      by_cases later : q ∈ ps
      · rw [if_pos later, if_pos (List.mem_cons_of_mem p later)]
      · by_cases here : q = p
        · rw [if_neg later, if_pos here, if_pos (here ▸ List.mem_cons_self)]
        · rw [if_neg later, if_neg here, if_neg (List.not_mem_cons_of_ne_of_not_mem here later)]

/-- The lamports of distinct accounts end up with `dest`, and no other balance
changes. -/
theorem drainAll_lamports (distinct : ps.Nodup) (apart : dest ∉ ps) : (drainAll s dest ps).lamports q =
    if q ∈ ps then 0 else if q = dest then s.lamports dest + (ps.map s.lamports).sum else s.lamports q := by
  induction ps generalizing s with
  | nil =>
      by_cases same : q = dest <;> simp [drainAll, same]
  | cons p ps ih =>
      obtain ⟨new, distinct⟩ := List.nodup_cons.1 distinct
      obtain ⟨ne, apart⟩ := not_or.1 (mt List.mem_cons.2 apart)
      have kept : ps.map (s.drainAccount p dest).lamports = ps.map s.lamports := by
        refine List.map_congr_left fun x hx => ?_
        rw [drain_lamports, if_neg (ne_of_mem_of_not_mem hx new), if_neg (ne_of_mem_of_not_mem hx apart)]
      rw [drainAll, List.foldl_cons, ← drainAll, ih distinct apart, kept, List.map_cons, List.sum_cons]
      by_cases later : q ∈ ps
      · rw [if_pos later, if_pos (List.mem_cons_of_mem p later)]
      · by_cases here : q = p
        · subst here
          rw [if_neg later, if_neg (Ne.symm ne), drain_lamports, if_pos rfl, if_pos List.mem_cons_self]
        · rw [if_neg later, if_neg (List.not_mem_cons_of_ne_of_not_mem here later), drain_lamports, drain_lamports,
            if_neg here, if_neg ne, if_pos rfl, Nat.add_assoc]
          split <;> rfl

theorem drainAll_append : drainAll (drainAll s dest ps) dest closed = drainAll s dest (ps ++ closed) :=
  (List.foldl_append).symm

theorem drainAll_transfers : (drainAll s dest ps).transfers = s.transfers ∧ (drainAll s dest ps).clock = s.clock := by
  induction ps generalizing s with
  | nil => exact ⟨rfl, rfl⟩
  | cons p ps ih => exact ih

end Drains

/-- A participant or a match of the tournament. -/
def Child (key : Pubkey) : Account → Prop
  | .participant x => x.tournament = key
  | .matchNode m => m.tournament = key
  | _ => False

section Children

theorem child_home (wf : Wellformed s) (child : Child key (s.accounts p)) :
    (∃ w, p = .participant key w) ∨ ∃ slot, p = .matchNode key slot := by
  have fits := wf p
  generalize s.accounts p = a at child fits
  cases a with
  | participant x =>
      obtain rfl : x.tournament = key := child
      exact .inl ⟨_, fits.1⟩
  | matchNode m =>
      obtain rfl : m.tournament = key := child
      exact .inr ⟨_, fits.1⟩
  | _ => exact child.elim

theorem child_apart (wf : Wellformed s) (child : Child key (s.accounts p)) (signer : organizer.canSign = true) :
    p ≠ organizer := by
  rintro rfl
  obtain ⟨_, rfl⟩ | ⟨_, rfl⟩ := child_home wf child <;> cases signer

/-- The bytes that stand for the tournament in a child are a signer's key in
all other accounts of the program. -/
theorem embedded_is_child (wf : Wellformed s) (hk : key.isTournament = true)
    (h : embeddedKey (s.accounts p) = some key) : Child key (s.accounts p) := by
  have fits := wf p
  have unsigned := not_canSign_of_isTournament hk
  generalize s.accounts p = a at h fits
  cases a with
  | participant | matchNode => exact Option.some.inj h
  | protocolConfig c =>
      obtain rfl : c.authority = key := Option.some.inj h
      exact absurd fits.2 (by simp [unsigned])
  | tournament t =>
      obtain rfl : t.organizer = key := Option.some.inj h
      exact absurd fits.2.2 (by simp [unsigned])
  | zeroed =>
      obtain rfl : default = key := Option.some.inj h
      exact absurd hk (by decide)
  | _ => cases h

/-- One pass of the loop skips the account, or drains it as a child. -/
theorem closeChild_cases (wf : Wellformed s) (hk : key.isTournament = true) (h : closeChild key organizer s p = .ok m) :
    (s.lamports p = 0 ∧ m = s) ∨
      (s.lamports p ≠ 0 ∧ Child key (s.accounts p) ∧ m = s.drainAccount p organizer) := by
  simp only [closeChild, ite_ok, bind_ok, require_ok, orThrow_ok, pure_ok] at h
  rcases h with ⟨none_, h⟩ | ⟨some_, _, _, embedded, hemb, _, rfl, _, _, rfl⟩
  · exact .inl ⟨none_, (Except.ok.inj h).symm⟩
  · exact .inr ⟨some_, embedded_is_child wf hk hemb, rfl⟩

theorem child_drained (wf : Wellformed s) (child : Child key (s.accounts p)) :
    Wellformed (s.drainAccount p organizer) := by
  have home : p.home = some key := by
    obtain ⟨_, rfl⟩ | ⟨_, rfl⟩ := child_home wf child <;> rfl
  exact (confined_drain wf organizer home).wf

theorem closeChildren_drains (wf : Wellformed s) (hk : key.isTournament = true) (signer : organizer.canSign = true)
    (h : each (closeChild key organizer) s children = .ok s') : ∃ closed, s' = drainAll s organizer closed ∧
      closed.Nodup ∧ (∀ p, p ∈ closed ↔ p ∈ children ∧ s.lamports p ≠ 0) ∧ ∀ p ∈ closed, Child key (s.accounts p) := by
  induction children generalizing s with
  | nil =>
      obtain rfl := Except.ok.inj h
      exact ⟨[], rfl, .nil, by simp, by simp⟩
  | cons child children ih =>
      obtain ⟨m, hm, rest⟩ := (each_cons_ok _ _ _ _ _).1 h
      rcases closeChild_cases wf hk hm with ⟨none_, rfl⟩ | ⟨some_, kind, rfl⟩
      · obtain ⟨closed, drained, distinct, listed, kinds⟩ := ih wf rest
        refine ⟨closed, drained, distinct, fun p => ?_, kinds⟩
        rw [listed, List.mem_cons]
        constructor
        · exact fun h => ⟨.inr h.1, h.2⟩
        · rintro ⟨rfl | mem, held⟩
          · exact absurd none_ held
          · exact ⟨mem, held⟩
      · have wf' : Wellformed (s.drainAccount child organizer) := child_drained wf kind
        obtain ⟨closed, drained, distinct, listed, kinds⟩ := ih wf' rest
        have new : child ∉ closed := by
          rw [listed, drain_lamports, if_pos rfl]
          exact fun h => h.2 rfl
        refine ⟨child :: closed, drained, List.nodup_cons.2 ⟨new, distinct⟩, fun p => ?_, ?_⟩
        · rw [List.mem_cons, List.mem_cons]
          by_cases here : p = child
          · subst here
            simp [some_]
          · rw [listed, drain_lamports, if_neg here]
            by_cases organizes : p = organizer
            · -- the organizer's address is no child, so it is not listed with lamports
              subst organizes
              have missed : p ∉ closed := fun mem => child_apart wf' (kinds p mem) signer rfl
              rw [listed, drain_lamports, if_neg here, if_pos rfl] at missed
              simp only [here, false_or, if_pos]
              refine ⟨fun h => absurd h missed, fun h => absurd ⟨h.1, ?_⟩ missed⟩
              have held := h.2
              omega
            · simp [here, organizes]
        · refine List.forall_mem_cons.2 ⟨kind, fun p mem => ?_⟩
          have kept := kinds p mem
          rwa [drain_accounts, if_neg (ne_of_mem_of_not_mem mem new)] at kept

end Children

/-- The vault and the tournament, when the call closes them too. -/
def CloseTournament.roots (a : CloseTournament) : List Pubkey :=
  if a.closeRoot = true then [.vault a.tournament, a.tournament] else []

/-- What a call closes: each listed child that still holds lamports once, and
the root on request. Their lamports go to the organizer, and nothing else
changes. -/
structure Closes (a : CloseTournament) (closed : List Pubkey) (s s' : Ledger) : Prop where
  listed : ∀ p, p ∈ closed ↔ p ∈ a.remainingAccounts ∧ s.lamports p ≠ 0
  children : ∀ p ∈ closed, Child a.tournament (s.accounts p)
  distinct : (closed ++ CloseTournament.roots a).Nodup
  accounts : ∀ p, s'.accounts p = if p ∈ closed ++ CloseTournament.roots a then .system else s.accounts p
  lamports : ∀ p, s'.lamports p = if p ∈ closed ++ CloseTournament.roots a then 0
    else if p = a.organizer then s.lamports p + ((closed ++ CloseTournament.roots a).map s.lamports).sum
    else s.lamports p
  rest : s'.transfers = s.transfers ∧ s'.clock = s.clock
  empty : a.closeRoot = true → ∃ v, s.token? (.vault a.tournament) = some v ∧ v.amount = 0

section Roots

variable {a : CloseTournament}

theorem eq_of_mem_roots (mem : p ∈ CloseTournament.roots a) : p = .vault a.tournament ∨ p = a.tournament := by
  unfold CloseTournament.roots at mem
  split at mem
  · simpa using mem
  · cases mem

theorem roots_nodup (hk : a.tournament.isTournament = true) : (CloseTournament.roots a).Nodup := by
  have ne : Pubkey.vault a.tournament ≠ a.tournament := (ne_of_isTournament hk rfl).symm
  unfold CloseTournament.roots
  split <;> simp [ne]

theorem child_ne_root (wf : Wellformed s) (hk : a.tournament.isTournament = true)
    (child : Child a.tournament (s.accounts p)) (root : q ∈ CloseTournament.roots a) : p ≠ q := by
  have home := child_home wf child
  rcases eq_of_mem_roots root with rfl | rfl
  · obtain ⟨_, rfl⟩ | ⟨_, rfl⟩ := home <;> simp
  · obtain ⟨_, rfl⟩ | ⟨_, rfl⟩ := home <;> exact (ne_of_isTournament hk rfl).symm

theorem root_cannot_sign (hk : a.tournament.isTournament = true) (root : q ∈ CloseTournament.roots a) :
    q.canSign = false := by
  rcases eq_of_mem_roots root with rfl | rfl
  · rfl
  · exact not_canSign_of_isTournament hk

end Roots

theorem closeTournament_closes {a : CloseTournament} (wf : Wellformed s) (h : closeTournament a s = .ok s') :
    ∃ t closed, s.tournament? a.tournament = some t ∧ terminal t.status ∧ a.organizer = t.organizer ∧
      Closes a closed s s' := by
  simp only [closeTournament, bind_ok, require_ok, ite_ok, pure_ok, Ledger.loadTournament_ok,
    Ledger.loadVault_ok] at h
  obtain ⟨t, ⟨ht, _⟩, _, organizes, _, _, u, ⟨hu, _⟩, _, ended, s₁, h₁, h⟩ := h
  obtain ⟨_, _, signer⟩ := record_fits wf ht
  have hk := isTournament_of_record wf ht
  rw [← organizes] at signer
  obtain ⟨closed, rfl, distinct, listed, kinds⟩ := closeChildren_drains wf hk signer h₁
  have drained : s' = drainAll s a.organizer (closed ++ CloseTournament.roots a) ∧
      (a.closeRoot = true → u.amount = 0) := by
    unfold CloseTournament.roots
    rcases h with ⟨root, h⟩ | ⟨kept, rfl⟩
    · simp only [closeRoot, bind_ok, require_ok, pure_ok] at h
      obtain ⟨_, _, _, empty, rfl⟩ := h
      rw [if_pos root, ← drainAll_append]
      exact ⟨rfl, fun _ => empty⟩
    · rw [if_neg kept, List.append_nil]
      exact ⟨rfl, fun root => absurd root kept⟩
  have whole : (closed ++ CloseTournament.roots a).Nodup :=
    List.nodup_append.2 ⟨distinct, roots_nodup hk, fun p mem _ root => child_ne_root wf hk (kinds p mem) root⟩
  have apart : a.organizer ∉ closed ++ CloseTournament.roots a := by
    intro mem
    rcases List.mem_append.1 mem with mem | root
    · exact child_apart wf (kinds _ mem) signer rfl
    · exact Bool.false_ne_true ((root_cannot_sign hk root).symm.trans signer)
  refine ⟨t, closed, ht, ended, organizes, listed, kinds, whole, fun p => ?_, fun p => ?_, ?_,
    fun root => ⟨u, hu, drained.2 root⟩⟩
  · rw [drained.1, drainAll_accounts]
  · rw [drained.1, drainAll_lamports whole apart]
    split
    · rfl
    · split
      · subst p
        rfl
      · rfl
  · rw [drained.1]
    exact drainAll_transfers

/-- In every reachable state the call fails and changes nothing, or closes
exactly the listed children of the ended tournament. -/
theorem close_reclaims (reachable : Reachable rt s) (a : CloseTournament) :
    ((∃ e, (Action.call (.closeTournament a)).run rt s = .error e) ∧ after rt s [.call (.closeTournament a)] = s) ∨
      ∃ s' t closed, (Action.call (.closeTournament a)).run rt s = .ok s' ∧
        after rt s [.call (.closeTournament a)] = s' ∧ s.tournament? a.tournament = some t ∧ terminal t.status ∧
        a.organizer = t.organizer ∧ Closes a closed s s' := by
  cases ran : (Action.call (.closeTournament a)).run rt s with
  | error e =>
      refine .inl ⟨⟨e, rfl⟩, ?_⟩
      simp only [after, ran]
  | ok s' =>
      obtain ⟨_, _, h⟩ := call_ran ran
      obtain ⟨t, closed, ht, ended, organizes, closes⟩ := closeTournament_closes (reachable_wellformed reachable) h
      refine .inr ⟨s', t, closed, rfl, ?_, ht, ended, organizes, closes⟩
      simp only [after, ran]

section Sample

/-- Wallet 5 closes two children of the ended sample tournament, one of them
listed twice, next to an address that holds nothing. -/
def sampleClose : CloseTournament where
  caller := .key 5
  tournament := sampleTournament.key
  organizer := .key 1
  closeRoot := false
  remainingAccounts := [.participant sampleTournament.key (.key 2), finalMatch sampleTournament.key,
    .participant sampleTournament.key (.key 2), .participant sampleTournament.key (.key 4)]

def endedSample : Ledger := after sampleRuntime sampleGenesis (proposedFinal ++ [concede sampleTournament.key])

theorem sampleClose_reclaims : ∃ s' closed,
    (Action.call (.closeTournament sampleClose)).run sampleRuntime endedSample = .ok s' ∧
    Closes sampleClose closed endedSample s' ∧
    s'.lamports (.key 1) = endedSample.lamports (.key 1) + 5519280 := by
  have succeeds : ∃ s', (Action.call (.closeTournament sampleClose)).run sampleRuntime endedSample = .ok s' ∧
      s'.lamports (.key 1) = endedSample.lamports (.key 1) + 5519280 := ⟨_, rfl, rfl⟩
  obtain ⟨s', ran, grown⟩ := succeeds
  obtain ⟨⟨e, failed⟩, _⟩ | ⟨s'', t, closed, ran', _, _, _, _, closes⟩ :=
    close_reclaims (script_reachable sampleGenesis_genesis _ : Reachable sampleRuntime endedSample) sampleClose
  · cases ran.symm.trans failed
  · obtain rfl := Except.ok.inj (ran.symm.trans ran')
    exact ⟨s', closed, ran, closes, grown⟩

end Sample

end BracketChain.Reclaim
