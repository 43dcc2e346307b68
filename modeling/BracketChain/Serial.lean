import BracketChain.Registration
import BracketChain.Wire

namespace BracketChain.Serial

open Keys Records Registration Wire

theorem leNat_lt (bs : List UInt8) : leNat bs < 256 ^ bs.length := by
  induction bs with
  | nil => exact Nat.one_pos
  | cons b bs ih =>
      have digit := b.toNat_lt
      rw [leNat, List.length_cons, Nat.pow_succ]
      omega

theorem leBytes_length (k n : Nat) : (leBytes k n).length = k := by
  induction k generalizing n with
  | zero => rfl
  | succ k ih => rw [leBytes, List.length_cons, ih]

theorem leNat_leBytes {k n : Nat} (h : n < 256 ^ k) : leNat (leBytes k n) = n := by
  induction k generalizing n with
  | zero =>
      rw [Nat.pow_zero] at h
      simp [leBytes, leNat, Nat.lt_one_iff.1 h]
  | succ k ih =>
      rw [Nat.pow_succ] at h
      rw [leBytes, leNat, ih (by omega), UInt8.toNat_ofNat']
      omega

theorem leBytes_leNat (bs : List UInt8) : leBytes bs.length (leNat bs) = bs := by
  induction bs with
  | nil => rfl
  | cons b bs ih =>
      have digit := b.toNat_lt
      have high : (b.toNat + 256 * leNat bs) / 256 = leNat bs := by omega
      rw [List.length_cons, leBytes, leNat, high, ih]
      congr 1
      refine UInt8.toNat_inj.1 ?_
      rw [UInt8.toNat_ofNat']
      omega

section Slices

variable {x v t : List UInt8} {k : Nat}

theorem slice_skip (h : x.length = k) (i j : Nat) : slice (x ++ t) (k + i) (k + j) = slice t i j := by
  have tail : (x ++ t).drop (k + i) = t.drop i := by rw [← h, List.drop_length_add_append]
  rw [slice, slice, tail, Nat.add_sub_add_left]

theorem slice_first (h : v.length = k) : slice (v ++ t) 0 k = v := by
  rw [slice, List.drop_zero, Nat.sub_zero, List.take_left' h]

end Slices

/-- Unsigned numbers of `k` bytes, the lowest byte first. -/
def word (k : Nat) : Codec (Fin (256 ^ k)) := (Codec.fixed k).equiv {
  toFun v := ⟨leNat v.toList, by simpa using leNat_lt v.toList⟩
  invFun n := ⟨(leBytes k n).toArray, by simpa using leBytes_length k n⟩
  left_inv v := by
    have back := leBytes_leNat v.toList
    rw [Vector.length_toList] at back
    exact Vector.toList_inj.1 (by simpa using back)
  right_inv n := Fin.ext (by simpa using leNat_leBytes n.2) }

theorem word_width (k : Nat) : (word k).Width k := (Codec.fixed k).equiv_width (Codec.fixed_width k) _

theorem word_total (k : Nat) : (word k).Total k := (Codec.fixed k).equiv_total (Codec.fixed_total k) _

def u8 : Codec UInt8 := (word 1).equiv ⟨UInt8.ofFin, UInt8.toFin, fun _ => rfl, fun _ => rfl⟩

def u16 : Codec UInt16 := (word 2).equiv ⟨UInt16.ofFin, UInt16.toFin, fun _ => rfl, fun _ => rfl⟩

def u32 : Codec UInt32 := (word 4).equiv ⟨UInt32.ofFin, UInt32.toFin, fun _ => rfl, fun _ => rfl⟩

def u64 : Codec UInt64 := (word 8).equiv ⟨UInt64.ofFin, UInt64.toFin, fun _ => rfl, fun _ => rfl⟩

def i64 : Codec Int64 := u64.equiv ⟨Int64.ofUInt64, Int64.toUInt64, fun _ => rfl, fun _ => rfl⟩

theorem u8_width : u8.Width 1 := (word 1).equiv_width (word_width 1) _

theorem u8_total : u8.Total 1 := (word 1).equiv_total (word_total 1) _

theorem u16_width : u16.Width 2 := (word 2).equiv_width (word_width 2) _

theorem u32_width : u32.Width 4 := (word 4).equiv_width (word_width 4) _

theorem u64_width : u64.Width 8 := (word 8).equiv_width (word_width 8) _

theorem u64_total : u64.Total 8 := (word 8).equiv_total (word_total 8) _

theorem i64_width : i64.Width 8 := u64.equiv_width u64_width _

theorem i64_total : i64.Total 8 := u64.equiv_total u64_total _

/-- A variant of an enumeration by its position; other bytes do not decode. -/
def tag (n : Nat) (small : n ≤ 256) : Codec (Fin n) := ((word 1).restrict fun b => b.1 < n).equiv {
  toFun b := ⟨b.1.1, b.2⟩
  invFun i := ⟨⟨i.1, by omega⟩, i.2⟩
  left_inv _ := rfl
  right_inv _ := rfl }

theorem tag_width {n : Nat} (small : n ≤ 256) : (tag n small).Width 1 :=
  Codec.equiv_width _ ((word 1).restrict_width (word_width 1)) _

def bool : Codec Bool := (tag 2 (by decide)).equiv {
  toFun | 0 => false | 1 => true
  invFun | false => 0 | true => 1
  left_inv | 0 => rfl | 1 => rfl
  right_inv | false => rfl | true => rfl }

theorem bool_width : bool.Width 1 := Codec.equiv_width _ (tag_width _) _

/-- The bytes of a string: their number in four bytes, then valid UTF-8. -/
abbrev Text := {s : {bytes : List UInt8 // bytes.length < 256 ^ 4} // s.1.toByteArray.IsValidUTF8}

def text : Codec Text := (Codec.sized (word 4)).restrict fun s => s.1.toByteArray.IsValidUTF8

theorem text_length (s : Text) : (text.encode s).length = 4 + s.1.1.length := by
  have parts : text.encode s = (word 4).encode ⟨s.1.1.length, s.1.2⟩ ++ s.1.1 := rfl
  rw [parts, List.length_append, word_width]

abbrev key : Codec Bytes32 := Codec.fixed 32

/-- A number in the place of a key. -/
def keyOf (n : Nat) : Bytes32 := ⟨(leBytes 32 n).toArray, by simpa using leBytes_length 32 n⟩

section Enumerations

def status : Codec TournamentStatus := (tag 6 (by decide)).equiv {
  toFun
    | 0 => .registration | 1 => .pendingBracketInit | 2 => .active | 3 => .completed | 4 => .cancelled
    | 5 => .partialCancelled
  invFun
    | .registration => 0 | .pendingBracketInit => 1 | .active => 2 | .completed => 3 | .cancelled => 4
    | .partialCancelled => 5
  left_inv | 0 | 1 | 2 | 3 | 4 | 5 => rfl
  right_inv s := by cases s <;> rfl }

theorem status_width : status.Width 1 := Codec.equiv_width _ (tag_width _) _

def game : Codec SupportedGame := (tag 5 (by decide)).equiv {
  toFun | 0 => .manual | 1 => .dota2 | 2 => .cs2Faceit | 3 => .valorant | 4 => .loL
  invFun := gameIndex
  left_inv | 0 | 1 | 2 | 3 | 4 => rfl
  right_inv g := by cases g <;> rfl }

theorem game_width : game.Width 1 := Codec.equiv_width _ (tag_width _) _

def settlementMode : Codec SettlementMode := (tag 3 (by decide)).equiv {
  toFun | 0 => .organizerOnly | 1 => .playerReported | 2 => .oracle
  invFun | .organizerOnly => 0 | .playerReported => 1 | .oracle => 2
  left_inv | 0 | 1 | 2 => rfl
  right_inv m := by cases m <;> rfl }

theorem settlementMode_width : settlementMode.Width 1 := Codec.equiv_width _ (tag_width _) _

/-- The presets of the first layout. -/
inductive FixedPreset
  | winnerTakesAll | standard | deep
deriving DecidableEq, Repr

def fixedPreset : Codec FixedPreset := (tag 3 (by decide)).equiv {
  toFun | 0 => .winnerTakesAll | 1 => .standard | 2 => .deep
  invFun | .winnerTakesAll => 0 | .standard => 1 | .deep => 2
  left_inv | 0 | 1 | 2 => rfl
  right_inv p := by cases p <;> rfl }

theorem fixedPreset_width : fixedPreset.Width 1 := Codec.equiv_width _ (tag_width _) _

/-- `PayoutPreset` with its slots as they are stored. -/
inductive Preset
  | winnerTakesAll | standard | deep
  | custom (slots : Vector UInt16 8)
deriving DecidableEq, Repr

def FixedPreset.carried : FixedPreset → Preset
  | .winnerTakesAll => .winnerTakesAll
  | .standard => .standard
  | .deep => .deep

def Slots : Fin 4 → Type
  | 3 => Vector UInt16 8
  | _ => Unit

def slots : ∀ i, Codec (Slots i)
  | 3 => u16.vector 8
  | 0 | 1 | 2 => Codec.nothing

def preset : Codec Preset := ((tag 4 (by decide)).tagged slots).equiv {
  toFun | ⟨0, _⟩ => .winnerTakesAll | ⟨1, _⟩ => .standard | ⟨2, _⟩ => .deep | ⟨3, v⟩ => .custom v
  invFun | .winnerTakesAll => ⟨0, ()⟩ | .standard => ⟨1, ()⟩ | .deep => ⟨2, ()⟩ | .custom v => ⟨3, v⟩
  left_inv | ⟨0, _⟩ | ⟨1, _⟩ | ⟨2, _⟩ | ⟨3, _⟩ => rfl
  right_inv p := by cases p <;> rfl }

def matchStatus : Codec MatchStatus := (tag 3 (by decide)).equiv {
  toFun | 0 => .pending | 1 => .active | 2 => .completed
  invFun | .pending => 0 | .active => 1 | .completed => 2
  left_inv | 0 | 1 | 2 => rfl
  right_inv s := by cases s <;> rfl }

def proposalSource : Codec ProposalSource := (tag 4 (by decide)).equiv {
  toFun | 0 => .none | 1 => .player | 2 => .oracle | 3 => .gameServer
  invFun | .none => 0 | .player => 1 | .oracle => 2 | .gameServer => 3
  left_inv | 0 | 1 | 2 | 3 => rfl
  right_inv s := by cases s <;> rfl }

/-- A tag, and the value behind it if there is one. -/
def option {α : Type} (c : Codec α) : Codec (Option α) :=
  (@Codec.tagged _ (tag 2 (by decide)) (fun i => if i = 0 then Unit else α)
    fun | 0 => Codec.nothing | 1 => c).equiv {
  toFun | ⟨0, _⟩ => none | ⟨1, a⟩ => some a
  invFun | none => ⟨0, ()⟩ | some a => ⟨1, a⟩
  left_inv | ⟨0, _⟩ | ⟨1, _⟩ => rfl
  right_inv o := by cases o <;> rfl }

theorem preset_carried (p : FixedPreset) : preset.encode p.carried = fixedPreset.encode p := by
  cases p <;> rfl

end Enumerations

/-- The fields of `Tournament` up to `vault_bump`, which is where the first
layout ends. -/
structure TournamentHead (P : Type) where
  organizer : Bytes32
  name : Text
  tokenMint : Bytes32
  vault : Bytes32
  entryFee : UInt64
  organizerDeposit : UInt64
  organizerDepositRefunded : Bool
  maxParticipants : UInt16
  bracketSize : UInt16
  participantCount : UInt16
  matchesInitialized : UInt16
  matchesReported : UInt16
  totalMatches : UInt16
  registrationDeadline : Int64
  createdAt : Int64
  startedAt : Int64
  completedAt : Int64
  status : TournamentStatus
  payoutPreset : P
  seedHash : Bytes32
  champion : Bytes32
  bump : UInt8
  vaultBump : UInt8

/-- The fields appended to `Tournament` since. -/
structure TournamentTail where
  game : SupportedGame
  settlementMode : SettlementMode
  disputeWindowSecs : UInt32
  vrfRandomnessAccount : Bytes32
  vrfCommitSlot : UInt64
  seedRevealed : Bool
  arbitrator : Bytes32
deriving DecidableEq, Repr

structure ParticipantHead where
  tournament : Bytes32
  wallet : Bytes32
  seedIndex : UInt16
  refundPaid : Bool
  bump : UInt8
deriving DecidableEq, Repr

structure ParticipantTail where
  identityHash : Bytes32
  identityAttestation : Bytes32
  wins : UInt8
  losses : UInt8
  pointsFor : UInt32
  pointsAgainst : UInt32
deriving DecidableEq, Repr

structure CommitmentData where
  lobbyId : Bytes16
  playerAGameId : Bytes32
  playerBGameId : Bytes32
  expectedFeedHash : Bytes32
  committedAt : Int64
  committedSlot : UInt64

structure MatchNodeData where
  tournament : Bytes32
  bracket : UInt8
  round : UInt8
  matchIndex : UInt16
  playerA : Bytes32
  playerB : Bytes32
  winner : Bytes32
  status : MatchStatus
  bye : Bool
  bump : UInt8
  proposalSource : ProposalSource
  proposer : Bytes32
  proposedWinner : Bytes32
  proposedAt : Int64
  claimDeadline : Int64
  disputed : Bool
  disputeReason : UInt8
  commitment : Option CommitmentData
  switchboardFeed : Bytes32

structure ConfigHead where
  authority : Bytes32
  treasury : Bytes32
  defaultMint : Bytes32
  feeBps : UInt16
  bump : UInt8
deriving DecidableEq, Repr

structure ConfigSas where
  sasCredential : Bytes32
  sasSchemas : Vector Bytes32 5
deriving DecidableEq, Repr

structure ConfigOracle where
  switchboardQueue : Bytes32
  maxStaleSlots : UInt32
  minOracleSamples : UInt32
deriving DecidableEq, Repr

section Structs

open Codec

def tournamentHead {P : Type} (payoutPreset : Codec P) : Codec (TournamentHead P) :=
  (key.pair (text.pair (key.pair (key.pair (u64.pair (u64.pair (bool.pair (u16.pair (u16.pair (u16.pair
    (u16.pair (u16.pair (u16.pair (i64.pair (i64.pair (i64.pair (i64.pair (status.pair (payoutPreset.pair
    (key.pair (key.pair (u8.pair u8)))))))))))))))))))))).equiv {
  toFun := fun (organizer, name, tokenMint, vault, entryFee, organizerDeposit, organizerDepositRefunded,
      maxParticipants, bracketSize, participantCount, matchesInitialized, matchesReported, totalMatches,
      registrationDeadline, createdAt, startedAt, completedAt, status, payoutPreset, seedHash, champion, bump,
      vaultBump) =>
    { organizer, name, tokenMint, vault, entryFee, organizerDeposit, organizerDepositRefunded, maxParticipants,
      bracketSize, participantCount, matchesInitialized, matchesReported, totalMatches, registrationDeadline,
      createdAt, startedAt, completedAt, status, payoutPreset, seedHash, champion, bump, vaultBump }
  invFun t := (t.organizer, t.name, t.tokenMint, t.vault, t.entryFee, t.organizerDeposit,
    t.organizerDepositRefunded, t.maxParticipants, t.bracketSize, t.participantCount, t.matchesInitialized,
    t.matchesReported, t.totalMatches, t.registrationDeadline, t.createdAt, t.startedAt, t.completedAt, t.status,
    t.payoutPreset, t.seedHash, t.champion, t.bump, t.vaultBump)
  left_inv _ := rfl
  right_inv _ := rfl }

theorem tournamentHead_length {P : Type} {payoutPreset : Codec P} {n : Nat} (wide : payoutPreset.Width n)
    (t : TournamentHead P) : ((tournamentHead payoutPreset).encode t).length = 228 + n + t.name.1.1.length := by
  have keys : ∀ k, (key.encode k).length = 32 := fixed_width 32
  have bytes : ∀ k, (u8.encode k).length = 1 := u8_width
  have shorts : ∀ k, (u16.encode k).length = 2 := u16_width
  have longs : ∀ k, (u64.encode k).length = 8 := u64_width
  have times : ∀ k, (i64.encode k).length = 8 := i64_width
  have flags : ∀ k, (bool.encode k).length = 1 := bool_width
  have statuses : ∀ k, (status.encode k).length = 1 := status_width
  have presets : ∀ k, (payoutPreset.encode k).length = n := wide
  simp only [tournamentHead, Codec.equiv, Codec.pair, Equiv.coe_fn_symm_mk, List.length_append, keys, bytes, shorts,
    longs, times, flags, statuses, presets, text_length]
  omega

def tournamentTail : Codec TournamentTail :=
  (game.pair (settlementMode.pair (u32.pair (key.pair (u64.pair (bool.pair key)))))).equiv {
  toFun := fun (game, settlementMode, disputeWindowSecs, vrfRandomnessAccount, vrfCommitSlot, seedRevealed,
      arbitrator) =>
    { game, settlementMode, disputeWindowSecs, vrfRandomnessAccount, vrfCommitSlot, seedRevealed, arbitrator }
  invFun t := (t.game, t.settlementMode, t.disputeWindowSecs, t.vrfRandomnessAccount, t.vrfCommitSlot,
    t.seedRevealed, t.arbitrator)
  left_inv _ := rfl
  right_inv _ := rfl }

theorem tournamentTail_width : tournamentTail.Width 79 :=
  equiv_width _ (pair_width _ game_width (pair_width _ settlementMode_width (pair_width _ u32_width (pair_width _
    (fixed_width 32) (pair_width _ u64_width (pair_width _ bool_width (fixed_width 32))))))) _

def participantHead : Codec ParticipantHead :=
  (key.pair (key.pair (u16.pair (bool.pair u8)))).equiv {
  toFun := fun (tournament, wallet, seedIndex, refundPaid, bump) =>
    { tournament, wallet, seedIndex, refundPaid, bump }
  invFun p := (p.tournament, p.wallet, p.seedIndex, p.refundPaid, p.bump)
  left_inv _ := rfl
  right_inv _ := rfl }

def participantTail : Codec ParticipantTail :=
  (key.pair (key.pair (u8.pair (u8.pair (u32.pair u32))))).equiv {
  toFun := fun (identityHash, identityAttestation, wins, losses, pointsFor, pointsAgainst) =>
    { identityHash, identityAttestation, wins, losses, pointsFor, pointsAgainst }
  invFun p := (p.identityHash, p.identityAttestation, p.wins, p.losses, p.pointsFor, p.pointsAgainst)
  left_inv _ := rfl
  right_inv _ := rfl }

theorem participantHead_width : participantHead.Width 68 :=
  equiv_width _ (pair_width _ (fixed_width 32) (pair_width _ (fixed_width 32) (pair_width _ u16_width
    (pair_width _ bool_width u8_width)))) _

theorem participantTail_width : participantTail.Width 74 :=
  equiv_width _ (pair_width _ (fixed_width 32) (pair_width _ (fixed_width 32) (pair_width _ u8_width
    (pair_width _ u8_width (pair_width _ u32_width u32_width))))) _

def commitmentData : Codec CommitmentData :=
  ((fixed 16).pair (key.pair (key.pair (key.pair (i64.pair u64))))).equiv {
  toFun := fun (lobbyId, playerAGameId, playerBGameId, expectedFeedHash, committedAt, committedSlot) =>
    { lobbyId, playerAGameId, playerBGameId, expectedFeedHash, committedAt, committedSlot }
  invFun c := (c.lobbyId, c.playerAGameId, c.playerBGameId, c.expectedFeedHash, c.committedAt, c.committedSlot)
  left_inv _ := rfl
  right_inv _ := rfl }

def matchNode : Codec MatchNodeData :=
  (key.pair (u8.pair (u8.pair (u16.pair (key.pair (key.pair (key.pair (matchStatus.pair (bool.pair (u8.pair
    (proposalSource.pair (key.pair (key.pair (i64.pair (i64.pair (bool.pair (u8.pair
    ((option commitmentData).pair key)))))))))))))))))).equiv {
  toFun := fun (tournament, bracket, round, matchIndex, playerA, playerB, winner, status, bye, bump, proposalSource,
      proposer, proposedWinner, proposedAt, claimDeadline, disputed, disputeReason, commitment, switchboardFeed) =>
    { tournament, bracket, round, matchIndex, playerA, playerB, winner, status, bye, bump, proposalSource, proposer,
      proposedWinner, proposedAt, claimDeadline, disputed, disputeReason, commitment, switchboardFeed }
  invFun m := (m.tournament, m.bracket, m.round, m.matchIndex, m.playerA, m.playerB, m.winner, m.status, m.bye, m.bump,
    m.proposalSource, m.proposer, m.proposedWinner, m.proposedAt, m.claimDeadline, m.disputed, m.disputeReason,
    m.commitment, m.switchboardFeed)
  left_inv _ := rfl
  right_inv _ := rfl }

def configHead : Codec ConfigHead :=
  (key.pair (key.pair (key.pair (u16.pair u8)))).equiv {
  toFun := fun (authority, treasury, defaultMint, feeBps, bump) => { authority, treasury, defaultMint, feeBps, bump }
  invFun c := (c.authority, c.treasury, c.defaultMint, c.feeBps, c.bump)
  left_inv _ := rfl
  right_inv _ := rfl }

theorem configHead_width : configHead.Width 99 :=
  equiv_width _ (pair_width _ (fixed_width 32) (pair_width _ (fixed_width 32) (pair_width _ (fixed_width 32)
    (pair_width _ u16_width u8_width)))) _

def configSas : Codec ConfigSas :=
  (key.pair (key.vector 5)).equiv {
  toFun := fun (sasCredential, sasSchemas) => { sasCredential, sasSchemas }
  invFun c := (c.sasCredential, c.sasSchemas)
  left_inv _ := rfl
  right_inv _ := rfl }

theorem configSas_width : configSas.Width 192 :=
  equiv_width _ (pair_width _ (fixed_width 32) (vector_width _ (fixed_width 32) 5)) _

def configOracle : Codec ConfigOracle :=
  (key.pair (u32.pair u32)).equiv {
  toFun := fun (switchboardQueue, maxStaleSlots, minOracleSamples) =>
    { switchboardQueue, maxStaleSlots, minOracleSamples }
  invFun c := (c.switchboardQueue, c.maxStaleSlots, c.minOracleSamples)
  left_inv _ := rfl
  right_inv _ := rfl }

theorem configOracle_width : configOracle.Width 40 :=
  equiv_width _ (pair_width _ (fixed_width 32) (pair_width _ u32_width u32_width)) _

/-- The current structs. -/
def tournament : Codec (TournamentHead Preset × TournamentTail) := (tournamentHead preset).pair tournamentTail

def participant : Codec (ParticipantHead × ParticipantTail) := participantHead.pair participantTail

theorem participant_width : participant.Width 142 := pair_width _ participantHead_width participantTail_width

def protocolConfig : Codec (ConfigHead × ConfigSas × ConfigOracle) := configHead.pair (configSas.pair configOracle)

theorem protocolConfig_width : protocolConfig.Width 331 :=
  pair_width _ configHead_width (pair_width _ configSas_width configOracle_width)

end Structs

def tournamentDiscriminator : List UInt8 := [175, 139, 119, 242, 115, 194, 57, 92]

def participantDiscriminator : List UInt8 := [32, 142, 108, 79, 247, 179, 54, 6]

def matchNodeDiscriminator : List UInt8 := [177, 131, 32, 203, 23, 107, 237, 191]

def configDiscriminator : List UInt8 := [207, 91, 250, 28, 152, 179, 215, 209]

/-- `try_deserialize`: the discriminator, then the struct. Bytes behind it are
not looked at. -/
def tryDeserialize {α : Type} (discriminator : List UInt8) (c : Codec α) (data : List UInt8) : Option α :=
  if data.take 8 = discriminator then (c.decode (data.drop 8)).map Prod.fst else none

theorem tryDeserialize_eq_some {α : Type} {discriminator data : List UInt8} {c : Codec α} {a : α} :
    tryDeserialize discriminator c data = some a ↔
      data.take 8 = discriminator ∧ ∃ rest, c.encode a ++ rest = data.drop 8 := by
  rw [tryDeserialize, Option.ite_none_right_eq_some]
  refine and_congr_right fun _ => ?_
  simp only [Option.map_eq_some_iff, Prod.exists, c.decode_eq_some]
  constructor
  · rintro ⟨_, rest, h, rfl⟩
    exact ⟨rest, h⟩
  · rintro ⟨rest, h⟩
    exact ⟨a, rest, h, rfl⟩

/-- A struct whose last fields come out of zeroed bytes. -/
theorem tryDeserialize_padded {α β : Type} {discriminator : List UInt8} (c : Codec α) {d : Codec β} {a : α} {b : β}
    {k n : Nat} (eight : discriminator.length = 8) (blank : d.Blank b k) (room : k ≤ n) :
    tryDeserialize discriminator (c.pair d) (discriminator ++ (c.encode a ++ List.replicate n 0)) = some (a, b) := by
  rw [tryDeserialize, List.take_left' eight, if_pos rfl, List.drop_left' eight,
    c.pair_decode_zeros blank room]
  rfl

/-- A struct does not come out of too few bytes. -/
theorem tryDeserialize_short {α : Type} {discriminator data : List UInt8} {c : Codec α} {n : Nat} (wide : c.Width n)
    (pos : 0 < n) (short : data.length < 8 + n) : tryDeserialize discriminator c data = none := by
  rw [tryDeserialize, c.decode_short wide (by rw [List.length_drop]; omega)]
  split <;> rfl

end BracketChain.Serial
