import TelemetryForge.Foundation.Base64
import TelemetryForge.Foundation.Merkle
import TelemetryForge.Wal.Readable

/-! # Segment seals

A seal is the signed attestation of the records of one closed WAL segment: their
range, their count and the Merkle root of their digests. Ed25519 is a parameter. -/

namespace TelemetryForge

open Json List Option

class Ed25519 where
  publicKey : Bytes → Bytes
  sign : Bytes → Bytes → Bytes
  verify : Bytes → Bytes → Bytes → Bool
  publicKey_length : ∀ secret, (publicKey secret).length = 32
  sign_length : ∀ secret message, (sign secret message).length = 64
  verify_sign : ∀ secret message, verify (publicKey secret) message (sign secret message) = true

namespace Lineage

def sealFormat : Bytes := ascii "telemetryforge-lineage-seal"

def sealVersion : Int := 1

def algorithm : Bytes := ascii "Ed25519"

def keyID (key : Bytes) : Bytes := ascii "ed25519:" ++ hexEncode ((Sha256.sum256 key).take 8)

def hashPair (left right : Bytes) : Bytes := Sha256.sum256 (left ++ right)

def decodeLeaf (leaf : Bytes) : Except String Bytes :=
  match hexDecode leaf with
  | some decoded =>
    if decoded.length = 32 then .ok decoded
    else .error "Merkle leaf is not a SHA-256 hash"
  | none => .error "Merkle leaf is not a SHA-256 hash"

def merkleRoot (leaves : List Bytes) : Except String Bytes := do
  let level ← leaves.mapM decodeLeaf
  match Merkle.root hashPair level with
  | some root => return hexEncode root
  | none => throw "cannot build Merkle root for zero leaves"

theorem decodeLeaf_eq_ok {leaf decoded : Bytes} :
    decodeLeaf leaf = .ok decoded ↔ hexDecode leaf = some decoded ∧ decoded.length = 32 := by
  unfold decodeLeaf
  cases hexDecode leaf with
  | none => simp
  | some bytes =>
    by_cases length : bytes.length = 32
    · simp only [if_pos length, Except.ok.injEq, some.injEq]
      constructor
      · rintro rfl
        exact ⟨rfl, length⟩
      · exact And.left
    · simp only [if_neg length, reduceCtorEq, some.injEq, false_iff, not_and]
      rintro rfl
      exact length

theorem decodeLeaf_of_validSHA256 {leaf : Bytes} (digest : validSHA256 leaf = true) :
    ∃ decoded, decodeLeaf leaf = .ok decoded := by
  unfold validSHA256 at digest
  split at digest
  · rename_i decoded hex
    simp only [Bool.and_eq_true, beq_iff_eq] at digest
    exact ⟨decoded, decodeLeaf_eq_ok.mpr ⟨hex, digest.1⟩⟩
  · simp at digest

private theorem mapM_decodeLeaf {leaves : List Bytes}
    (digests : ∀ leaf ∈ leaves, validSHA256 leaf = true) :
    ∃ level, leaves.mapM decodeLeaf = .ok level ∧ level.length = leaves.length ∧
      ∀ node ∈ level, node.length = 32 := by
  induction leaves with
  | nil => exact ⟨[], rfl, rfl, by simp⟩
  | cons leaf rest induction =>
    rw [forall_mem_cons] at digests
    rcases decodeLeaf_of_validSHA256 digests.1 with ⟨decoded, found⟩
    rcases induction digests.2 with ⟨level, mapped, length, sizes⟩
    refine ⟨decoded :: level, ?_, by simp [length], ?_⟩
    · simp [mapM_cons, found, mapped, bind, Except.bind, pure, Except.pure]
    · simpa [(decodeLeaf_eq_ok.mp found).2] using sizes

theorem merkleRoot_of_validSHA256 {leaves : List Bytes} (nonempty : leaves ≠ [])
    (digests : ∀ leaf ∈ leaves, validSHA256 leaf = true) :
    ∃ root, merkleRoot leaves = .ok root ∧ validSHA256 root = true := by
  rcases mapM_decodeLeaf digests with ⟨level, mapped, length, sizes⟩
  have levelNonempty : level ≠ [] := by
    intro empty
    subst empty
    exact nonempty (length_eq_zero_iff.mp length.symm)
  rcases Merkle.root_isSome hashPair levelNonempty with ⟨node, found⟩
  have size : node.length = 32 :=
    Merkle.reduce_invariant hashPair
      (fun left right _ _ => Sha256.sum256_length (left ++ right)) sizes found
  refine ⟨hexEncode node, ?_, ?_⟩
  · simp [merkleRoot, mapped, found, bind, Except.bind, pure, Except.pure]
  · simp [validSHA256, hexDecode_hexEncode, lowercase_hexEncode, size]

end Lineage

structure Seal where
  format : Bytes
  formatVersion : Int
  edgeID : Bytes
  segment : Bytes
  firstSequence : Nat
  lastSequence : Nat
  recordCount : Nat
  firstRecordHash : Bytes
  lastRecordHash : Bytes
  merkleRoot : Bytes
  previousSegmentRoot : Bytes
  sealedAt : Time
  algorithm : Bytes
  keyID : Bytes
  publicKey : Bytes
  signature : Bytes
deriving DecidableEq

namespace Seal

def zero : Seal := ⟨[], 0, [], [], 0, 0, 0, [], [], [], [], .zero, [], [], [], []⟩

inductive Text
  | format | edgeID | segment | firstRecordHash | lastRecordHash | merkleRoot
  | previousSegmentRoot | algorithm | keyID | publicKey | signature
deriving DecidableEq

inductive Count
  | firstSequence | lastSequence | recordCount
deriving DecidableEq

def text (stamp : Seal) : Text → Bytes
  | .format => stamp.format
  | .edgeID => stamp.edgeID
  | .segment => stamp.segment
  | .firstRecordHash => stamp.firstRecordHash
  | .lastRecordHash => stamp.lastRecordHash
  | .merkleRoot => stamp.merkleRoot
  | .previousSegmentRoot => stamp.previousSegmentRoot
  | .algorithm => stamp.algorithm
  | .keyID => stamp.keyID
  | .publicKey => stamp.publicKey
  | .signature => stamp.signature

def withText (stamp : Seal) (value : Bytes) : Text → Seal
  | .format => { stamp with format := value }
  | .edgeID => { stamp with edgeID := value }
  | .segment => { stamp with segment := value }
  | .firstRecordHash => { stamp with firstRecordHash := value }
  | .lastRecordHash => { stamp with lastRecordHash := value }
  | .merkleRoot => { stamp with merkleRoot := value }
  | .previousSegmentRoot => { stamp with previousSegmentRoot := value }
  | .algorithm => { stamp with algorithm := value }
  | .keyID => { stamp with keyID := value }
  | .publicKey => { stamp with publicKey := value }
  | .signature => { stamp with signature := value }

def count (stamp : Seal) : Count → Nat
  | .firstSequence => stamp.firstSequence
  | .lastSequence => stamp.lastSequence
  | .recordCount => stamp.recordCount

def withCount (stamp : Seal) (value : Nat) : Count → Seal
  | .firstSequence => { stamp with firstSequence := value }
  | .lastSequence => { stamp with lastSequence := value }
  | .recordCount => { stamp with recordCount := value }

inductive Field
  | text (field : Text)
  | count (field : Count)
  | formatVersion
  | sealedAt
deriving DecidableEq

instance : FieldNames Field where
  all := [.text .format, .formatVersion, .text .edgeID, .text .segment, .count .firstSequence,
    .count .lastSequence, .count .recordCount, .text .firstRecordHash, .text .lastRecordHash,
    .text .merkleRoot, .text .previousSegmentRoot, .sealedAt, .text .algorithm, .text .keyID,
    .text .publicKey, .text .signature]
  name
    | .text .format => ascii "format"
    | .formatVersion => ascii "format_version"
    | .text .edgeID => ascii "edge_id"
    | .text .segment => ascii "segment"
    | .count .firstSequence => ascii "first_sequence"
    | .count .lastSequence => ascii "last_sequence"
    | .count .recordCount => ascii "record_count"
    | .text .firstRecordHash => ascii "first_record_hash"
    | .text .lastRecordHash => ascii "last_record_hash"
    | .text .merkleRoot => ascii "merkle_root"
    | .text .previousSegmentRoot => ascii "previous_segment_root"
    | .sealedAt => ascii "sealed_at"
    | .text .algorithm => ascii "algorithm"
    | .text .keyID => ascii "key_id"
    | .text .publicKey => ascii "public_key"
    | .text .signature => ascii "signature"
  selects := by
    rintro (field | field | _ | _)
    · cases field <;> decide +kernel
    · cases field <;> decide +kernel
    all_goals decide +kernel
  literal := by
    rintro (field | field | _ | _)
    · cases field <;> decide +kernel
    · cases field <;> decide +kernel
    all_goals decide +kernel

def textMember (stamp : Seal) (field : Text) : List (Field × List Token) :=
  [(.text field, stringTokens (stamp.text field))]

def countMember (stamp : Seal) (field : Count) : List (Field × List Token) :=
  [(.count field, natTokens (stamp.count field))]

def payloadMembers (stamp : Seal) (sealedAt : List Token) : List (Field × List Token) :=
  List.flatten [
    stamp.textMember .format,
    [(.formatVersion, intTokens stamp.formatVersion)],
    stamp.textMember .edgeID,
    stamp.textMember .segment,
    stamp.countMember .firstSequence,
    stamp.countMember .lastSequence,
    stamp.countMember .recordCount,
    stamp.textMember .firstRecordHash,
    stamp.textMember .lastRecordHash,
    stamp.textMember .merkleRoot,
    optionalField (stamp.previousSegmentRoot != []) (.text .previousSegmentRoot)
      (stringTokens stamp.previousSegmentRoot),
    [(.sealedAt, sealedAt)],
    stamp.textMember .algorithm,
    stamp.textMember .keyID,
    stamp.textMember .publicKey]

def members (stamp : Seal) (sealedAt : List Token) : List (Field × List Token) :=
  stamp.payloadMembers sealedAt ++ stamp.textMember .signature

def utcTokens (civil : Civil) : Option (List Token) :=
  if 0 ≤ civil.year ∧ civil.year ≤ 9999 then some [.string civil.utcText] else none

def canonicalSealPayload (stamp : Seal) : Option Bytes :=
  (utcTokens stamp.sealedAt.utc).map fun sealedAt =>
    render (structTokens (stamp.payloadMembers sealedAt))

def marshal (stamp : Seal) : Option Bytes :=
  (timeTokens stamp.sealedAt).map fun sealedAt =>
    renderIndented (structTokens (stamp.members sealedAt))

def setField (stamp : Seal) (field : Field) (value : List Token) : Option Seal :=
  match field with
  | .text field =>
    (decodeString (stamp.text field) value).map fun text => stamp.withText text field
  | .count field =>
    (decodeUint64 (stamp.count field) value).map fun number => stamp.withCount number field
  | .formatVersion =>
    (decodeInt stamp.formatVersion value).map fun number => { stamp with formatVersion := number }
  | .sealedAt =>
    (decodeTime stamp.sealedAt value).map fun time => { stamp with sealedAt := time }

def decode (value : List Token) : Option Seal := decodeStruct id setField true zero value

/-- `ReadSeal`: the first value of the file, without unknown fields. -/
def readSeal (text : Bytes) : Option Seal :=
  (firstValue text).bind fun read => decode (read.1.map Lexeme.token)

structure Portable (stamp : Seal) : Prop where
  text : ∀ field, Utf8.valid (stamp.text field) = true
  count : ∀ field, stamp.count field < 2 ^ 64
  formatVersion : stamp.formatVersion = Lineage.sealVersion
  utc : stamp.sealedAt.offset = 0

private theorem set_text (stamp : Seal) (field : Text) (text : Bytes) :
    stamp.setField (.text field) (stringTokens text) =
      some (stamp.withText (Utf8.coerce text) field) := by
  simp [setField]

private theorem set_count (stamp : Seal) (field : Count) {number : Nat} (bound : number < 2 ^ 64) :
    stamp.setField (.count field) (natTokens number) = some (stamp.withCount number field) := by
  simp only [setField, decodeUint64_natTokens, if_pos bound, map_some]

variable {stamp : Seal}

variable {sealedAt : List Token}

theorem payloadMembers_written {limit : Nat}
    (version : 0 ≤ stamp.formatVersion) (time : Written limit sealedAt) :
    ∀ entry ∈ stamp.payloadMembers sealedAt, Written limit entry.2 := by
  simp only [payloadMembers, textMember, countMember, flatten_cons, flatten_nil,
    forall_mem_append, forall_mem_cons, forall_mem_optionalField]
  simp only [written_stringTokens, written_natTokens, written_intTokens _ version, time,
    implies_true, and_true, not_mem_nil, false_implies]

theorem members_written {limit : Nat}
    (version : 0 ≤ stamp.formatVersion) (time : Written limit sealedAt) :
    ∀ entry ∈ stamp.members sealedAt, Written limit entry.2 := by
  rw [members, forall_mem_append]
  exact ⟨payloadMembers_written version time, by simp [textMember]⟩

theorem Portable.reread (portable : stamp.Portable) : stamp.sealedAt.reread = stamp.sealedAt := by
  have utc := portable.utc
  rcases sealed : stamp.sealedAt with ⟨civil, offset, valid⟩
  rw [sealed] at utc
  change offset = 0 at utc
  subst utc
  rfl

private theorem foldlM_members (portable : stamp.Portable)
    (encoded : timeTokens stamp.sealedAt = some sealedAt) : (stamp.members sealedAt).foldlM
      (fun (state : Seal) entry => state.setField entry.1 entry.2) zero = some stamp := by
  have text (state : Seal) (field : Text) :
      state.setField (.text field) (stringTokens (stamp.text field)) =
        some (state.withText (stamp.text field) field) := by
    rw [set_text, Utf8.coerce_of_valid (portable.text field)]
  have count (state : Seal) (field : Count) :
      state.setField (.count field) (natTokens (stamp.count field)) =
        some (state.withCount (stamp.count field) field) :=
    set_count state field (portable.count field)
  have version (state : Seal) :
      state.setField .formatVersion (intTokens stamp.formatVersion) =
        some { state with formatVersion := stamp.formatVersion } := by
    rw [setField, decodeInt_intTokens _ (by rw [portable.formatVersion]; decide)
      (by rw [portable.formatVersion]; decide)]
    rfl
  have time (state : Seal) : state.setField .sealedAt sealedAt =
      some { state with sealedAt := stamp.sealedAt } := by
    simp [setField, decodeTime_timeTokens encoded, portable.reread]
  have previous (state : Seal) (fresh : state.previousSegmentRoot = []) :
      (optionalField (stamp.previousSegmentRoot != []) (.text .previousSegmentRoot)
          (stringTokens stamp.previousSegmentRoot)).foldlM
        (fun (state : Seal) (entry : Field × List Token) => state.setField entry.1 entry.2)
        state = some { state with previousSegmentRoot := stamp.previousSegmentRoot } := by
    apply foldlM_optionalField
    · intro _
      exact text state .previousSegmentRoot
    · intro omitted
      have empty : stamp.previousSegmentRoot = [] := by simpa using omitted
      cases state
      simp_all
  simp only [members, payloadMembers, textMember, countMember, flatten_cons, flatten_nil,
    foldlM_append, foldlM_cons, foldlM_nil, text, count, version, pure, bind, bind_some]
  rw [previous _ rfl]
  simp only [time, bind_some, withText, withCount, Seal.text, Seal.count]

theorem valid_of_readSeal {content : Bytes} (read : readSeal content = some stamp) (field : Text) :
    Utf8.valid (stamp.text field) = true := by
  rcases Option.bind_eq_some_iff.mp read with ⟨⟨lexemes, rest⟩, value, decoded⟩
  have formed : ∀ token ∈ lexemes.map Lexeme.token, token.WellFormed := by
    rw [List.forall_mem_map]
    exact fun lexeme member => ((readValue_sound value).2.2.1 lexeme member).2
  refine decodeStruct_invariant (fun stamp : Seal => ∀ field, Utf8.valid (stamp.text field) = true)
    decoded ?_ ?_ field
  · intro field
    cases field <;> rfl
  · intro state field entries next inside valid set other
    cases field with
    | text field =>
      rcases Option.map_eq_some_iff.mp set with ⟨text, found, rfl⟩
      have validText := decodeString_valid found
        (fun token member => formed token (inside token member)) (valid field)
      by_cases same : other = field
      · subst same
        cases other <;> exact validText
      · have unchanged : (state.withText text field).text other = state.text other := by
          cases field <;> cases other <;> first | rfl | exact absurd rfl same
        rw [unchanged]
        exact valid other
    | count field =>
      rcases Option.map_eq_some_iff.mp set with ⟨_, _, rfl⟩
      have unchanged (number : Nat) : (state.withCount number field).text other =
          state.text other := by
        cases field <;> cases other <;> rfl
      rw [unchanged]
      exact valid other
    | formatVersion =>
      rcases Option.map_eq_some_iff.mp set with ⟨_, _, rfl⟩
      exact valid other
    | sealedAt =>
      rcases Option.map_eq_some_iff.mp set with ⟨_, _, rfl⟩
      exact valid other

theorem readSeal_marshal (portable : stamp.Portable) {written : Bytes}
    (encoded : stamp.marshal = some written) : readSeal written = some stamp := by
  simp only [marshal, map_eq_some_iff] at encoded
  rcases encoded with ⟨sealedAt, time, rfl⟩
  have version : 0 ≤ stamp.formatVersion := by
    rw [portable.formatVersion]
    decide
  have formed (limit : Nat) : ∀ entry ∈ stamp.members sealedAt, Written limit entry.2 :=
    members_written version (timeTokens_written limit time)
  rw [readSeal, firstValue_renderIndented (written_structTokens (formed 9999)),
    bind_some, indent_tokens, decode, decodeStruct_tokens _ _ _ (formed _)]
  exact foldlM_members portable time

end Seal

end TelemetryForge

/-! ## Signing and verifying seals

`SignSeal` fills in the fixed fields of a seal and signs the rest; `VerifySeal`
accepts exactly the seals described by `Verified`. -/

namespace TelemetryForge.Seal

open Json

variable [Ed25519]

def signSeal (secret : Bytes) (stamp : Seal) : Option Seal :=
  let unsigned : Seal := { stamp with
    format := Lineage.sealFormat
    formatVersion := Lineage.sealVersion
    algorithm := Lineage.algorithm
    keyID := Lineage.keyID (Ed25519.publicKey secret)
    publicKey := Base64.encode (Ed25519.publicKey secret)
    signature := [] }
  unsigned.canonicalSealPayload.map fun payload =>
    { unsigned with signature := Base64.encode (Ed25519.sign secret payload) }

omit [Ed25519] in
def checkStructure (stamp : Seal) : Except String Unit := do
  if stamp.format ≠ Lineage.sealFormat ∨ stamp.formatVersion ≠ Lineage.sealVersion then
    throw "unsupported lineage seal format/version"
  if stamp.algorithm ≠ Lineage.algorithm then
    throw "unsupported lineage signature algorithm"
  if trimSpace stamp.edgeID = [] ∨ trimSpace stamp.segment = [] then
    throw "lineage seal edge_id and segment are required"
  if stamp.firstSequence = 0 ∨ stamp.lastSequence < stamp.firstSequence ∨ stamp.recordCount = 0 then
    throw "invalid lineage seal sequence range"
  -- The source ranges over a map, so which of several bad hashes is named is open.
  if validSHA256 stamp.firstRecordHash = false then
    throw "invalid first_record_hash"
  if validSHA256 stamp.lastRecordHash = false then
    throw "invalid last_record_hash"
  if validSHA256 stamp.merkleRoot = false then
    throw "invalid merkle_root"
  if stamp.previousSegmentRoot ≠ [] ∧ validSHA256 stamp.previousSegmentRoot = false then
    throw "invalid previous_segment_root"
  if stamp.sealedAt.isZero then
    throw "sealed_at is required"

omit [Ed25519] in
def checkKey (trusted : Option Bytes) (stamp : Seal) : Except String Bytes :=
  match Base64.decode stamp.publicKey with
  | none => .error "invalid embedded Ed25519 public key"
  | some key =>
    if key.length ≠ 32 then .error "invalid embedded Ed25519 public key"
    else if Lineage.keyID key ≠ stamp.keyID then
      .error "lineage key ID does not match embedded public key"
    else if trusted ≠ none ∧ trusted ≠ some key then
      .error "lineage seal signer does not match trusted public key"
    else .ok key

def checkSignature (stamp : Seal) (key : Bytes) : Except String Unit :=
  match Base64.decode stamp.signature with
  | none => .error "invalid Ed25519 signature encoding"
  | some signature =>
    if signature.length ≠ 64 then .error "invalid Ed25519 signature encoding"
    else
      match stamp.canonicalSealPayload with
      | none => .error "json: unsupported value"
      | some payload =>
        if Ed25519.verify key payload signature = false then
          .error "lineage seal signature verification failed"
        else .ok ()

def verifySeal (trusted : Option Bytes) (stamp : Seal) : Except String Unit := do
  stamp.checkStructure
  let key ← stamp.checkKey trusted
  stamp.checkSignature key

omit [Ed25519] in
structure Formed (stamp : Seal) : Prop where
  format : stamp.format = Lineage.sealFormat
  formatVersion : stamp.formatVersion = Lineage.sealVersion
  algorithm : stamp.algorithm = Lineage.algorithm
  identity : trimSpace stamp.edgeID ≠ [] ∧ trimSpace stamp.segment ≠ []
  range : stamp.firstSequence ≠ 0 ∧ stamp.firstSequence ≤ stamp.lastSequence ∧ stamp.recordCount ≠ 0
  firstRecordHash : validSHA256 stamp.firstRecordHash = true
  lastRecordHash : validSHA256 stamp.lastRecordHash = true
  merkleRoot : validSHA256 stamp.merkleRoot = true
  previousSegmentRoot : stamp.previousSegmentRoot = [] ∨
    validSHA256 stamp.previousSegmentRoot = true
  sealedAt : stamp.sealedAt.isZero = false

structure Signed (stamp : Seal) (key : Bytes) : Prop where
  embedded : Base64.decode stamp.publicKey = some key
  length : key.length = 32
  keyID : Lineage.keyID key = stamp.keyID
  signature : ∃ signature payload, Base64.decode stamp.signature = some signature ∧
    signature.length = 64 ∧ stamp.canonicalSealPayload = some payload ∧
    Ed25519.verify key payload signature = true

variable {stamp : Seal}

omit [Ed25519] in
theorem checkStructure_ok_iff : stamp.checkStructure = .ok () ↔ stamp.Formed := by
  simp only [checkStructure, bind, Except.bind, pure, Except.pure, throw, throwThe,
    MonadExceptOf.throw, ite_error_eq_ok, not_or, not_and_or, not_not, not_lt,
    Bool.not_eq_false, Bool.not_eq_true]
  constructor
  · rintro ⟨⟨format, version⟩, algorithm, identity, ⟨first, range, count⟩, firstHash, lastHash,
      root, previous, sealedAt, _⟩
    exact ⟨format, version, algorithm, identity, ⟨first, range, count⟩, firstHash, lastHash,
      root, previous, sealedAt⟩
  · rintro ⟨format, version, algorithm, identity, range, firstHash, lastHash, root, previous,
      sealedAt⟩
    exact ⟨⟨format, version⟩, algorithm, identity, range, firstHash, lastHash, root, previous,
      sealedAt, trivial⟩

omit [Ed25519] in
theorem checkKey_eq_ok {trusted : Option Bytes} {key : Bytes} :
    stamp.checkKey trusted = .ok key ↔ Base64.decode stamp.publicKey = some key ∧
      key.length = 32 ∧ Lineage.keyID key = stamp.keyID ∧
      (trusted = none ∨ trusted = some key) := by
  unfold checkKey
  cases Base64.decode stamp.publicKey with
  | none => simp
  | some found =>
    simp only [ite_error_eq_ok, not_not, not_and_or, Except.ok.injEq, Option.some.injEq]
    constructor
    · rintro ⟨length, identity, trust, rfl⟩
      exact ⟨rfl, length, identity, trust⟩
    · rintro ⟨rfl, length, identity, trust⟩
      exact ⟨length, identity, trust, rfl⟩

theorem checkSignature_ok_iff {key : Bytes} : stamp.checkSignature key = .ok () ↔
    ∃ signature payload, Base64.decode stamp.signature = some signature ∧
      signature.length = 64 ∧ stamp.canonicalSealPayload = some payload ∧
      Ed25519.verify key payload signature = true := by
  unfold checkSignature
  cases Base64.decode stamp.signature with
  | none => simp
  | some signature =>
    cases stamp.canonicalSealPayload with
    | none => simp only [ite_error_eq_ok, reduceCtorEq, and_false, false_and, exists_false]
    | some payload => simp only [ite_error_eq_ok, Bool.not_eq_false, and_true, not_not,
        Option.some.injEq, exists_and_left, exists_eq_left']

theorem verifySeal_ok_iff {trusted : Option Bytes} : stamp.verifySeal trusted = .ok () ↔
    stamp.Formed ∧ ∃ key, stamp.Signed key ∧ (trusted = none ∨ trusted = some key) := by
  simp only [verifySeal, bind, bind_eq_ok, checkKey_eq_ok, checkSignature_ok_iff]
  constructor
  · rintro ⟨_, formed, key, ⟨decoded, length, identity, trust⟩, signature⟩
    exact ⟨checkStructure_ok_iff.mp formed, key, ⟨decoded, length, identity, signature⟩, trust⟩
  · rintro ⟨formed, key, ⟨decoded, length, identity, signature⟩, trust⟩
    exact ⟨(), checkStructure_ok_iff.mpr formed, key, ⟨decoded, length, identity, trust⟩, signature⟩

theorem signSeal_eq_some {secret : Bytes} {unsigned : Seal}
    (signed : signSeal secret unsigned = some stamp) : stamp.Signed (Ed25519.publicKey secret) := by
  simp only [signSeal, Option.map_eq_some_iff] at signed
  rcases signed with ⟨payload, encoded, rfl⟩
  refine ⟨Base64.decode_encode _, Ed25519.publicKey_length _, rfl, Ed25519.sign secret payload,
    payload, Base64.decode_encode _, Ed25519.sign_length _ _, ?_, Ed25519.verify_sign _ _⟩
  -- The signature is not part of what is signed.
  exact encoded

omit [Ed25519] in
theorem valid_keyID (key : Bytes) : Utf8.valid (Lineage.keyID key) = true := by
  apply Utf8.valid_append
  · decide +kernel
  · exact Utf8.valid_of_ascii (hexDecode_ascii (hexDecode_hexEncode _))

end TelemetryForge.Seal
