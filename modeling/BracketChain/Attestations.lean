import BracketChain.Scripts
import BracketChain.Serial

namespace BracketChain.Attestations

open Outcome Keys Records Accounts Registration Wire Serial Scripts

/-- An attestation account as its program documents it, up to the expiry. -/
structure Attestation where
  discriminator : UInt8
  nonce : Bytes32
  credential : Bytes32
  schema : Bytes32
  data : {bytes : List UInt8 // bytes.length < 256 ^ 4}
  signer : Bytes32
  expiry : Int64

def attestation : Codec Attestation :=
  (u8.pair (key.pair (key.pair (key.pair ((Codec.sized (word 4)).pair (key.pair i64)))))).equiv {
  toFun := fun (discriminator, nonce, credential, schema, data, signer, expiry) =>
    { discriminator, nonce, credential, schema, data, signer, expiry }
  invFun a := (a.discriminator, a.nonce, a.credential, a.schema, a.data, a.signer, a.expiry)
  left_inv _ := rfl
  right_inv _ := rfl }

/-- What the game-identity schema stores in an attestation. -/
structure GameIdentity where
  game : UInt8
  steamId64 : UInt64
  identityBytes : {bytes : List UInt8 // bytes.length < 256 ^ 4}

def gameIdentity : Codec GameIdentity := (u8.pair (u64.pair (Codec.sized (word 4)))).equiv {
  toFun := fun (game, steamId64, identityBytes) => { game, steamId64, identityBytes }
  invFun g := (g.game, g.steamId64, g.identityBytes)
  left_inv _ := rfl
  right_inv _ := rfl }

/-- A slice as the processor takes it: bounds outside the data abort. -/
def sliceChecked (data : List UInt8) (start stop : Nat) : Except Error (List UInt8) := do
  require (start ≤ stop ∧ stop ≤ data.length) .panicked
  pure (slice data start stop)

/-- The parser with all of its reads and additions checked. -/
def validateAttestationChecked (rt : Runtime) (owner : Pubkey) (data : List UInt8)
    (player expectedCredential expectedSchema : Pubkey) (now : Int) : Except Error Bytes32 := do
  require (owner = sasProgramId) .invalidAttestationOwner
  require (101 ≤ data.length) .malformedAttestation
  let nonce ← sliceChecked data 1 33
  let credential ← sliceChecked data 33 65
  let schema ← sliceChecked data 65 97
  require (nonce = rt.keyBytes player) .attestationWalletMismatch
  require (credential = rt.keyBytes expectedCredential) .wrongAttestationCredential
  require (schema = rt.keyBytes expectedSchema) .wrongAttestationSchema
  let dataLen ← sliceChecked data 97 101
  let payloadEnd ← orThrow (checkedAdd u64Max 101 (leNat dataLen)) .malformedAttestation
  let expiryStart ← orThrow (checkedAdd u64Max payloadEnd 32) .malformedAttestation
  let expiryEnd ← orThrow (checkedAdd u64Max expiryStart 8) .panicked
  require (expiryEnd ≤ data.length) .malformedAttestation
  let payload ← sliceChecked data 101 payloadEnd
  require (13 ≤ payload.length) .malformedAttestation
  let ibLen ← sliceChecked payload 9 13
  require (leNat ibLen = 32) .malformedAttestation
  require (45 ≤ payload.length) .malformedAttestation
  let expiry ← sliceChecked data expiryStart expiryEnd
  require (leInt64 expiry = 0 ∨ now < leInt64 expiry) .attestationExpired
  let identity ← sliceChecked payload 13 45
  if h : identity.toArray.size = 32 then .ok ⟨identity.toArray, h⟩ else .error .panicked

section Slices

variable {data : List UInt8} {i j : Nat}

theorem slice_length (h : j ≤ data.length) : (slice data i j).length = j - i := by
  simp only [slice, List.length_take, List.length_drop]
  omega

theorem sliceChecked_inside (le : i ≤ j) (inside : j ≤ data.length) : sliceChecked data i j = .ok (slice data i j) := by
  simp [sliceChecked, require, le, inside, bind, Except.bind, pure, Except.pure]

theorem leNat_slice (inside : j ≤ data.length) : leNat (slice data i j) < 256 ^ (j - i) := by
  have bound := leNat_lt (slice data i j)
  rwa [slice_length inside] at bound

end Slices

theorem ok_bind {α β : Type} (a : α) (f : α → Except Error β) : (Except.ok a >>= f) = f a := rfl

theorem bind_require {α : Type} {c : Prop} [Decidable c] {e : Error} {f g : Unit → Except Error α}
    (h : c → f () = g ()) : (require c e >>= f) = (require c e >>= g) :=
  bind_ok_congr fun _ ok => h ((require_ok _ _ _).1 ok)

theorem bind_checkedAdd {α : Type} {a b : Nat} {e : Error} (f : Nat → Except Error α) (fits : a + b ≤ u64Max) :
    (orThrow (checkedAdd u64Max a b) e >>= f) = f (a + b) := by
  simp [orThrow, checkedAdd, fits, bind, Except.bind]

variable {rt : Runtime} {owner player credential schema : Pubkey} {data : List UInt8} {now : Int}

/-- All reads are inside the account and no addition overflows. -/
theorem validate_checked : validateAttestationChecked rt owner data player credential schema now =
    validateAttestation rt owner data player credential schema now := by
  unfold validateAttestationChecked validateAttestation
  refine bind_require fun _ => bind_require fun header => ?_
  simp only [ok_bind, sliceChecked_inside (show 1 ≤ 33 by decide) (show 33 ≤ data.length by omega),
    sliceChecked_inside (show 33 ≤ 65 by decide) (show 65 ≤ data.length by omega),
    sliceChecked_inside (show 65 ≤ 97 by decide) (show 97 ≤ data.length by omega),
    sliceChecked_inside (show 97 ≤ 101 by decide) header]
  refine bind_require fun _ => bind_require fun _ => bind_require fun _ => ?_
  have bound : leNat (slice data 97 101) < 256 ^ 4 := leNat_slice header
  have fits : 101 + leNat (slice data 97 101) + 32 + 8 ≤ u64Max := by
    simp only [u64Max]
    omega
  rw [bind_checkedAdd _ (by omega), bind_checkedAdd _ (by omega), bind_checkedAdd _ fits]
  refine bind_require fun long => ?_
  rw [sliceChecked_inside (by omega) (show 101 + leNat (slice data 97 101) ≤ data.length by omega), ok_bind]
  refine bind_require fun lead => ?_
  rw [sliceChecked_inside (by decide) lead, ok_bind]
  refine bind_require fun _ => bind_require fun whole => ?_
  rw [sliceChecked_inside (by omega) long, ok_bind]
  refine bind_require fun _ => ?_
  rw [sliceChecked_inside (by decide) whole, ok_bind]

theorem bind_require_ne {α : Type} {c : Prop} [Decidable c] {e e' : Error} {f : Unit → Except Error α} (apart : e ≠ e')
    (h : c → f () ≠ .error e') : (require c e >>= f) ≠ .error e' := by
  intro failed
  rcases (bind_error _ _ _).1 failed with failed | ⟨_, ok, failed⟩
  · exact apart ((require_error _ _ _).1 failed).2
  · exact h ((require_ok _ _ _).1 ok) failed

/-- The parts of an account that the parser computes from the stored length. -/
def payloadEnd (data : List UInt8) : Nat := 101 + leNat (slice data 97 101)

def payloadOf (data : List UInt8) : List UInt8 := slice data 101 (payloadEnd data)

def expiryOf (data : List UInt8) : Int := leInt64 (slice data (payloadEnd data + 32) (payloadEnd data + 32 + 8))

theorem identity_size {payload : List UInt8} (whole : 45 ≤ payload.length) : (slice payload 13 45).toArray.size = 32 :=
  slice_length whole

theorem validate_ne_panicked : validateAttestation rt owner data player credential schema now ≠ .error .panicked := by
  unfold validateAttestation
  refine bind_require_ne (by decide) fun _ => bind_require_ne (by decide) fun _ => bind_require_ne (by decide) fun _ =>
    bind_require_ne (by decide) fun _ => bind_require_ne (by decide) fun _ => bind_require_ne (by decide) fun _ =>
    bind_require_ne (by decide) fun _ => bind_require_ne (by decide) fun _ => bind_require_ne (by decide) fun whole =>
    bind_require_ne (by decide) fun _ => ?_
  simp only [dif_pos (identity_size whole)]
  exact nofun

/-- The identity lies in the payload as the schema stores it, and is 32 bytes. -/
def Holds (payload : List UInt8) (identity : Bytes32) : Prop :=
  ∃ g suffix, gameIdentity.encode g ++ suffix = payload ∧ g.identityBytes.1 = identity.toList

/-- What the parser asks of the bytes. -/
structure Parses (rt : Runtime) (player credential schema : Pubkey) (now : Int) (data : List UInt8)
    (identity : Bytes32) : Prop where
  long : payloadEnd data + 32 + 8 ≤ data.length
  nonce : slice data 1 33 = rt.keyBytes player
  credential : slice data 33 65 = rt.keyBytes credential
  schema : slice data 65 97 = rt.keyBytes schema
  whole : 45 ≤ (payloadOf data).length
  count : leNat (slice (payloadOf data) 9 13) = 32
  identity : slice (payloadOf data) 13 45 = identity.toList
  fresh : expiryOf data = 0 ∨ now < expiryOf data

theorem validate_ok {identity : Bytes32} : validateAttestation rt owner data player credential schema now = .ok identity ↔
    owner = sasProgramId ∧ Parses rt player credential schema now data identity := by
  simp only [validateAttestation, bind_ok, require_ok]
  constructor
  · rintro ⟨_, owned, _, _, _, nonce, _, credential, _, schema, _, long, _, _, _, count, _, whole, _, fresh, h⟩
    rw [dif_pos (identity_size whole)] at h
    obtain rfl := Except.ok.inj h
    exact ⟨owned, long, nonce, credential, schema, whole, count, rfl, fresh⟩
  · rintro ⟨owned, long, nonce, credential, schema, whole, count, same, fresh⟩
    have header : 101 ≤ data.length := by
      rw [payloadEnd] at long
      omega
    have lead : 13 ≤ (payloadOf data).length := by omega
    refine ⟨(), owned, (), header, (), nonce, (), credential, (), schema, (), long, (), lead, (), count, (), whole,
      (), fresh, ?_⟩
    have size : (slice (payloadOf data) 13 45).toArray.size = 32 := identity_size whole
    refine (dif_pos size).trans (congrArg Except.ok (Vector.toList_inj.1 ?_))
    exact same

section Layout

/-- The fixed part in front of the payload, and the one behind it. -/
def header : Codec (UInt8 × Bytes32 × Bytes32 × Bytes32 × Fin (256 ^ 4)) :=
  u8.pair (key.pair (key.pair (key.pair (word 4))))

def footer : Codec (Bytes32 × Int64) := key.pair i64

theorem header_width : header.Width 101 :=
  Codec.pair_width _ u8_width (Codec.pair_width _ (Codec.fixed_width 32) (Codec.pair_width _ (Codec.fixed_width 32)
    (Codec.pair_width _ (Codec.fixed_width 32) (word_width 4))))

theorem header_total : header.Total 101 :=
  Codec.pair_total _ u8_width u8_total (Codec.pair_total _ (Codec.fixed_width 32) (Codec.fixed_total 32)
    (Codec.pair_total _ (Codec.fixed_width 32) (Codec.fixed_total 32)
      (Codec.pair_total _ (Codec.fixed_width 32) (Codec.fixed_total 32) (word_total 4))))

theorem footer_width : footer.Width 40 := Codec.pair_width _ (Codec.fixed_width 32) i64_width

theorem footer_total : footer.Total 40 := Codec.pair_total _ (Codec.fixed_width 32) (Codec.fixed_total 32) i64_total

theorem attestation_append (a : Attestation) (rest : List UInt8) : attestation.encode a ++ rest =
    header.encode (a.discriminator, a.nonce, a.credential, a.schema, ⟨a.data.1.length, a.data.2⟩) ++
      (a.data.1 ++ (footer.encode (a.signer, a.expiry) ++ rest)) := by
  have parts : attestation.encode a = u8.encode a.discriminator ++ (key.encode a.nonce ++ (key.encode a.credential ++
      (key.encode a.schema ++ (((word 4).encode ⟨a.data.1.length, a.data.2⟩ ++ a.data.1) ++
        footer.encode (a.signer, a.expiry))))) := rfl
  simp only [parts, header, Codec.pair, List.append_assoc]

section Header

variable (h : UInt8 × Bytes32 × Bytes32 × Bytes32 × Fin (256 ^ 4)) (t : List UInt8)

/-- Where the parts of the header lie. -/
theorem header_append : header.encode h ++ t = u8.encode h.1 ++ (h.2.1.toList ++ (h.2.2.1.toList ++
    (h.2.2.2.1.toList ++ (leBytes 4 h.2.2.2.2 ++ t)))) := by
  have parts : header.encode h = u8.encode h.1 ++ (h.2.1.toList ++ (h.2.2.1.toList ++ (h.2.2.2.1.toList ++
    leBytes 4 h.2.2.2.2))) := rfl
  simp only [parts, List.append_assoc]

theorem slice_nonce : slice (header.encode h ++ t) 1 33 = h.2.1.toList := by
  rw [header_append]
  exact (slice_skip (u8_width _) 0 32).trans (slice_first Vector.length_toList)

theorem slice_credential : slice (header.encode h ++ t) 33 65 = h.2.2.1.toList := by
  rw [header_append]
  refine (slice_skip (u8_width _) 32 64).trans ?_
  exact (slice_skip Vector.length_toList 0 32).trans (slice_first Vector.length_toList)

theorem slice_schema : slice (header.encode h ++ t) 65 97 = h.2.2.2.1.toList := by
  rw [header_append]
  refine (slice_skip (u8_width _) 64 96).trans ((slice_skip Vector.length_toList 32 64).trans ?_)
  exact (slice_skip Vector.length_toList 0 32).trans (slice_first Vector.length_toList)

theorem payloadEnd_header : payloadEnd (header.encode h ++ t) = 101 + h.2.2.2.2 := by
  have stored : slice (header.encode h ++ t) 97 101 = leBytes 4 h.2.2.2.2 := by
    rw [header_append]
    refine (slice_skip (u8_width _) 96 100).trans ((slice_skip Vector.length_toList 64 68).trans ?_)
    refine (slice_skip Vector.length_toList 32 36).trans ((slice_skip Vector.length_toList 0 4).trans ?_)
    exact slice_first (leBytes_length 4 _)
  rw [payloadEnd, stored, leNat_leBytes h.2.2.2.2.2]

end Header

theorem leInt64_encode (n : Int64) : leInt64 (i64.encode n) = n.toInt := by
  have bytes : i64.encode n = leBytes 8 n.toUInt64.toNat := rfl
  have bound : n.toUInt64.toNat < 256 ^ 8 := n.toUInt64.toNat_lt
  have signed : n.toInt = n.toUInt64.toBitVec.toInt := rfl
  have unsigned : n.toUInt64.toNat = n.toUInt64.toBitVec.toNat := rfl
  rw [bytes, leInt64, leNat_leBytes bound, signed, BitVec.toInt_eq_toNat_cond, unsigned]
  generalize n.toUInt64.toBitVec.toNat = m
  split <;> split <;> omega

variable (a : Attestation) (rest : List UInt8)

theorem payloadEnd_encode : payloadEnd (attestation.encode a ++ rest) = 101 + a.data.1.length := by
  rw [attestation_append, payloadEnd_header]

theorem payloadOf_encode : payloadOf (attestation.encode a ++ rest) = a.data.1 := by
  rw [payloadOf, payloadEnd_encode, attestation_append]
  exact (slice_skip (header_width _) 0 _).trans (slice_first rfl)

theorem expiryOf_encode : expiryOf (attestation.encode a ++ rest) = a.expiry.toInt := by
  have apart (k : Nat) : 101 + a.data.1.length + 32 + k = 101 + (a.data.1.length + (32 + k)) := by omega
  have stored : slice (attestation.encode a ++ rest) (101 + a.data.1.length + 32 + 0) (101 + a.data.1.length + 32 + 8) =
      i64.encode a.expiry := by
    have last : footer.encode (a.signer, a.expiry) ++ rest = a.signer.toList ++ (i64.encode a.expiry ++ rest) :=
      List.append_assoc _ _ _
    rw [attestation_append, apart 8, apart 0, slice_skip (header_width _), slice_skip rfl, last,
      slice_skip Vector.length_toList]
    exact slice_first (i64_width _)
  rw [expiryOf, payloadEnd_encode, ← leInt64_encode, ← stored, Nat.add_zero]

theorem long_encode : payloadEnd (attestation.encode a ++ rest) + 32 + 8 ≤ (attestation.encode a ++ rest).length := by
  rw [payloadEnd_encode, attestation_append]
  simp only [List.length_append, header_width _, footer_width _]
  omega

/-- Bytes that are long enough are those of an attestation. -/
theorem attestation_of_long (long : payloadEnd data + 32 + 8 ≤ data.length) :
    ∃ a rest, attestation.encode a ++ rest = data := by
  have enough : 101 ≤ data.length := by
    rw [payloadEnd] at long
    omega
  obtain ⟨h, t, rfl⟩ := header_total data enough
  rw [payloadEnd_header, List.length_append, header_width] at long
  have taken : (t.take h.2.2.2.2).length = h.2.2.2.2 := List.length_take_of_le (by omega)
  obtain ⟨f, rest, split⟩ := footer_total (t.drop h.2.2.2.2) (by rw [List.length_drop]; omega)
  refine ⟨⟨h.1, h.2.1, h.2.2.1, h.2.2.2.1, ⟨t.take h.2.2.2.2, taken.symm ▸ h.2.2.2.2.2⟩, f.1, f.2⟩, rest, ?_⟩
  rw [attestation_append, split, List.take_append_drop]
  simp only [taken]

end Layout

section Payload

variable (g : GameIdentity) (rest : List UInt8)

/-- The part of the payload in front of the identity. -/
def lead : Codec (UInt8 × UInt64 × Fin (256 ^ 4)) := u8.pair (u64.pair (word 4))

theorem lead_width : lead.Width 13 := Codec.pair_width _ u8_width (Codec.pair_width _ u64_width (word_width 4))

theorem lead_total : lead.Total 13 :=
  Codec.pair_total _ u8_width u8_total (Codec.pair_total _ u64_width u64_total (word_total 4))

theorem gameIdentity_append : gameIdentity.encode g ++ rest =
    lead.encode (g.game, g.steamId64, ⟨g.identityBytes.1.length, g.identityBytes.2⟩) ++
      (g.identityBytes.1 ++ rest) := by
  have parts : gameIdentity.encode g = u8.encode g.game ++ (u64.encode g.steamId64 ++
    ((word 4).encode ⟨g.identityBytes.1.length, g.identityBytes.2⟩ ++ g.identityBytes.1)) := rfl
  simp only [parts, lead, Codec.pair, List.append_assoc]

theorem slice_count (h : UInt8 × UInt64 × Fin (256 ^ 4)) (t : List UInt8) :
    leNat (slice (lead.encode h ++ t) 9 13) = h.2.2 := by
  have parts : lead.encode h ++ t = u8.encode h.1 ++ (u64.encode h.2.1 ++ (leBytes 4 h.2.2 ++ t)) := by
    have whole : lead.encode h = u8.encode h.1 ++ (u64.encode h.2.1 ++ leBytes 4 h.2.2) := rfl
    simp only [whole, List.append_assoc]
  have stored : slice (lead.encode h ++ t) 9 13 = leBytes 4 h.2.2 := by
    rw [parts]
    refine (slice_skip (u8_width _) 8 12).trans ((slice_skip (u64_width _) 0 4).trans ?_)
    exact slice_first (leBytes_length 4 _)
  rw [stored, leNat_leBytes h.2.2.2]

theorem holds_iff {payload : List UInt8} {identity : Bytes32} : Holds payload identity ↔
    45 ≤ payload.length ∧ leNat (slice payload 9 13) = 32 ∧ slice payload 13 45 = identity.toList := by
  constructor
  · rintro ⟨g, suffix, rfl, same⟩
    have length : g.identityBytes.1.length = 32 := by rw [same, Vector.length_toList]
    rw [gameIdentity_append, slice_count]
    refine ⟨?_, length, ?_⟩
    · simp only [List.length_append, lead_width _, length]
      omega
    · exact ((slice_skip (lead_width _) 0 32).trans (slice_first length)).trans same
  · rintro ⟨whole, count, same⟩
    obtain ⟨h, t, rfl⟩ := lead_total payload (by omega)
    rw [slice_count] at count
    have identityBytes : t.take 32 = identity.toList := (slice_skip (lead_width _) 0 32).symm.trans same
    rw [List.length_append, lead_width] at whole
    have taken : (t.take 32).length = 32 := List.length_take_of_le (by omega)
    have fits : (t.take 32).length < 256 ^ 4 := by
      rw [taken]
      decide
    refine ⟨⟨h.1, h.2.1, ⟨t.take 32, fits⟩⟩, t.drop 32, ?_, identityBytes⟩
    rw [gameIdentity_append, List.take_append_drop]
    have same_count : (⟨(t.take 32).length, fits⟩ : Fin (256 ^ 4)) = h.2.2 :=
      Fin.ext (taken.trans count.symm)
    rw [same_count]

end Payload

/-- An attestation of the wallet, for the credential and the schema, that
stores the identity and has not expired. -/
structure Attests (rt : Runtime) (player credential schema : Pubkey) (now : Int) (identity : Bytes32)
    (a : Attestation) : Prop where
  nonce : a.nonce.toList = rt.keyBytes player
  credential : a.credential.toList = rt.keyBytes credential
  schema : a.schema.toList = rt.keyBytes schema
  identity : Holds a.data.1 identity
  fresh : a.expiry.toInt = 0 ∨ now < a.expiry.toInt

theorem parses_encode {a : Attestation} {rest : List UInt8} {identity : Bytes32} :
    Parses rt player credential schema now (attestation.encode a ++ rest) identity ↔
      Attests rt player credential schema now identity a := by
  have payload := payloadOf_encode a rest
  have expiry := expiryOf_encode a rest
  constructor
  · rintro ⟨_, nonce, credential, schema, whole, count, same, fresh⟩
    rw [attestation_append, slice_nonce] at nonce
    rw [attestation_append, slice_credential] at credential
    rw [attestation_append, slice_schema] at schema
    rw [payload] at whole count same
    rw [expiry] at fresh
    exact ⟨nonce, credential, schema, holds_iff.2 ⟨whole, count, same⟩, fresh⟩
  · rintro ⟨nonce, credential, schema, stored, fresh⟩
    obtain ⟨whole, count, same⟩ := holds_iff.1 stored
    refine ⟨long_encode a rest, ?_, ?_, ?_, payload.symm ▸ whole, payload.symm ▸ count, payload.symm ▸ same,
      expiry.symm ▸ fresh⟩
    · rw [attestation_append, slice_nonce, nonce]
    · rw [attestation_append, slice_credential, credential]
    · rw [attestation_append, slice_schema, schema]

/-- The parser never aborts, and accepts exactly the documented layout; what
it returns is the identity that was encoded. -/
theorem validate_exact (rt : Runtime) (owner player credential schema : Pubkey) (now : Int) :
    (∀ data, validateAttestationChecked rt owner data player credential schema now =
      validateAttestation rt owner data player credential schema now ∧
      validateAttestation rt owner data player credential schema now ≠ .error .panicked) ∧
    (∀ data identity, validateAttestation rt sasProgramId data player credential schema now = .ok identity ↔
      ∃ a rest, attestation.encode a ++ rest = data ∧ Attests rt player credential schema now identity a) ∧
    ∀ a rest identity, Attests rt player credential schema now identity a →
      validateAttestation rt sasProgramId (attestation.encode a ++ rest) player credential schema now = .ok identity := by
  refine ⟨fun data => ⟨validate_checked, validate_ne_panicked⟩, fun data identity => ?_, fun a rest identity attests => ?_⟩
  · rw [validate_ok]
    constructor
    · rintro ⟨_, parses⟩
      obtain ⟨a, rest, rfl⟩ := attestation_of_long parses.long
      exact ⟨a, rest, rfl, parses_encode.1 parses⟩
    · rintro ⟨a, rest, rfl, attests⟩
      exact ⟨rfl, parses_encode.2 attests⟩
  · exact validate_ok.2 ⟨rfl, parses_encode.2 attests⟩

/-- A runtime whose addresses spell their numbers. -/
def spellingRuntime : Runtime :=
  { sampleRuntime with keyBytes := fun | .key n => leBytes 32 n | _ => List.replicate 32 0 }

/-- Key 2 is attested by credential 50 under schema 51, without an expiry. -/
def sampleAttestation : Attestation where
  discriminator := 2
  nonce := keyOf 2
  credential := keyOf 50
  schema := keyOf 51
  data := ⟨gameIdentity.encode ⟨1, 765, ⟨List.replicate 32 7, by decide⟩⟩ ++ [0, 0], by decide⟩
  signer := zeroBytes
  expiry := 0

theorem sampleAttestation_validates : validateAttestation spellingRuntime sasProgramId
    (attestation.encode sampleAttestation ++ [9]) (.key 2) (.key 50) (.key 51) 10 = .ok (Vector.replicate 32 7) := by
  refine (validate_exact spellingRuntime sasProgramId (.key 2) (.key 50) (.key 51) 10).2.2 sampleAttestation [9] _ ?_
  exact ⟨rfl, rfl, rfl, ⟨_, _, rfl, rfl⟩, .inl rfl⟩

end BracketChain.Attestations
