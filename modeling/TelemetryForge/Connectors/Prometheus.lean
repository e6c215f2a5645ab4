import TelemetryForge.Domain.Event
import TelemetryForge.Foundation.Protobuf
import TelemetryForge.Foundation.Numbers

/-! # Labels of Prometheus series

The remote-write connector labels a series with the name, the source and the tenant of the event
and with the tags that the allowlist names. -/

namespace TelemetryForge.Connectors

open List SortedMap

def validRune (metric : Bool) (i : Nat) (c : UInt8) : Bool :=
  c == 95 || (97 ≤ c && c ≤ 122) || (65 ≤ c && c ≤ 90) || (i > 0 && 48 ≤ c && c ≤ 57) ||
    (metric && c == 58)

def sanitizeRune (metric : Bool) (i : Nat) : Rune → UInt8
  | .ascii c => if validRune metric i c then c else 95
  | _ => 95

def sanitizePrometheusName (v : Bytes) (metric : Bool) : Bytes :=
  match Utf8.runes (trimSpace v) with
  | [] => if metric then ascii "telemetryforge_metric" else ascii "label"
  | first :: rest =>
    let r := sanitizeRune metric 0 first :: rest.map (sanitizeRune metric 1)
    if validRune metric 0 (sanitizeRune metric 0 first) then r else 95 :: r

def sanitizeMetricName (v : Bytes) : Bytes := sanitizePrometheusName v true

def sanitizeLabelName (v : Bytes) : Bytes := sanitizePrometheusName v false

def acceptsLabels (labels : List Bytes) : Bool :=
  labels.length ≤ 32 && labels.all fun label => trimSpace label ≠ []

def identityLabels (event : Event) : List (Bytes × Bytes) :=
  [(ascii "__name__", sanitizeMetricName event.type), (ascii "source", event.source),
    (ascii "tenant_id", event.tenantID)]

/-- What the loop writes for the tags in the order in which it meets them. -/
def tagLabels (allowed : List Bytes) (tags : List (Bytes × Bytes)) : List (Bytes × Bytes) :=
  (tags.filter fun tag => allowed.contains tag.1).map fun tag => (sanitizeLabelName tag.1, tag.2)

/-- The label map of `encodePrometheusWriteRequest`, with the tags in a given order. -/
def labels (event : Event) (allowed : List Bytes) (tags : List (Bytes × Bytes)) :
    SortedMap Bytes Bytes :=
  (SortedMap.empty.insertAll (identityLabels event)).insertAll (tagLabels allowed tags)

def Consistent (labels : List (Bytes × Bytes)) : Prop :=
  ∀ first ∈ labels, ∀ second ∈ labels, first.1 = second.1 → first.2 = second.2

/-- The identity labels are those of the event, and the labels do not depend on the order in
which the tags are met. -/
def Protected (event : Event) (allowed : List Bytes) : Prop :=
  ∀ tags, tags.Perm event.tags.entries →
    (∀ label ∈ identityLabels event, (labels event allowed tags).find? label.1 = some label.2) ∧
      labels event allowed tags = labels event allowed event.tags.entries

section Map

variable {map : SortedMap Bytes Bytes} {written : List (Bytes × Bytes)}

theorem insertAll_concat (label : Bytes × Bytes) :
    map.insertAll (written ++ [label]) = (map.insertAll written).insert label.1 label.2 := by
  simp [insertAll]

theorem find?_insertAll_of_mem (consistent : Consistent written) {label : Bytes × Bytes}
    (member : label ∈ written) : (map.insertAll written).find? label.1 = some label.2 := by
  induction written using reverseRecOn with
  | nil => cases member
  | append_singleton written last induction =>
    rw [insertAll_concat, find?_insert]
    split_ifs with same
    · rw [consistent last (by simp) label member same.symm]
    · rcases mem_append.mp member with earlier | isLast
      · exact induction (fun first isFirst second isSecond => consistent first
          (mem_append_left _ isFirst) second (mem_append_left _ isSecond)) earlier
      · exact (same (congrArg Prod.fst (mem_singleton.mp isLast))).elim

theorem find?_insertAll_of_absent {name : Bytes} (absent : ∀ label ∈ written, label.1 ≠ name) :
    (map.insertAll written).find? name = map.find? name := by
  induction written using reverseRecOn with
  | nil => rfl
  | append_singleton written last induction =>
    rw [insertAll_concat, find?_insert, if_neg (absent last (by simp)).symm]
    exact induction fun label member => absent label (mem_append_left _ member)

end Map

theorem labels_eq_insertAll (event : Event) (allowed : List Bytes) (tags : List (Bytes × Bytes)) :
    labels event allowed tags =
      SortedMap.empty.insertAll (identityLabels event ++ tagLabels allowed tags) := by
  simp [labels, insertAll]

theorem insertAll_eq_of_perm {first second : List (Bytes × Bytes)} (same : first.Perm second)
    (consistent : Consistent second) (map : SortedMap Bytes Bytes) :
    map.insertAll first = map.insertAll second := by
  apply ext
  intro name
  by_cases found : ∃ label ∈ second, label.1 = name
  · rcases found with ⟨label, member, rfl⟩
    rw [find?_insertAll_of_mem consistent member, find?_insertAll_of_mem ?_ (same.mem_iff.mpr member)]
    intro left isLeft right isRight
    exact consistent left (same.mem_iff.mp isLeft) right (same.mem_iff.mp isRight)
  · simp only [not_exists, not_and] at found
    rw [find?_insertAll_of_absent found, find?_insertAll_of_absent fun label member =>
      found label (same.mem_iff.mp member)]

theorem exists_order (event : Event) {allowed : List Bytes} {label : Bytes × Bytes}
    (member : label ∈ tagLabels allowed event.tags.entries) :
    ∃ tags, tags.Perm event.tags.entries ∧
      (labels event allowed tags).find? label.1 = some label.2 := by
  rcases mem_map.mp member with ⟨tag, isAllowed, rfl⟩
  rcases mem_filter.mp isAllowed with ⟨isTag, isAllowed⟩
  refine ⟨event.tags.entries.erase tag ++ [tag], ?_, ?_⟩
  · exact (perm_append_singleton _ _).trans (perm_cons_erase isTag).symm
  · have last : tagLabels allowed (event.tags.entries.erase tag ++ [tag]) =
        tagLabels allowed (event.tags.entries.erase tag) ++ [(sanitizeLabelName tag.1, tag.2)] := by
      simp only [tagLabels, filter_append, map_append, filter_cons, isAllowed,
        if_true, filter_nil, map_cons, map_nil]
    rw [labels, last, insertAll_concat, find?_insert, if_pos rfl]

/-- The labels are protected exactly when no two of the labels that are written have the same
name and different values. -/
theorem protected_iff (event : Event) (allowed : List Bytes) :
    Protected event allowed ↔
      Consistent (identityLabels event ++ tagLabels allowed event.tags.entries) := by
  constructor
  · intro isProtected
    have kept : ∀ label ∈ identityLabels event ++ tagLabels allowed event.tags.entries,
        (labels event allowed event.tags.entries).find? label.1 = some label.2 := by
      intro label member
      rcases mem_append.mp member with identity | tag
      · exact (isProtected _ (List.Perm.refl _)).1 label identity
      · rcases exists_order event tag with ⟨tags, order, found⟩
        rwa [(isProtected tags order).2] at found
    intro first isFirst second isSecond same
    have found := kept first isFirst
    rw [same, kept second isSecond] at found
    exact (Option.some.inj found).symm
  · intro consistent tags order
    have same : (identityLabels event ++ tagLabels allowed tags).Perm
        (identityLabels event ++ tagLabels allowed event.tags.entries) :=
      ((order.filter _).map _).append_left _
    have equal : labels event allowed tags = labels event allowed event.tags.entries := by
      rw [labels_eq_insertAll, labels_eq_insertAll, insertAll_eq_of_perm same consistent]
    refine ⟨fun label member => ?_, equal⟩
    rw [equal, labels_eq_insertAll]
    exact find?_insertAll_of_mem consistent (mem_append_left _ member)

/-- A client that may set the tag `tenant-id` chooses the tenant of the series. -/
theorem not_protected_tenant :
    let event := { Event.zero with
      tenantID := ascii "acme"
      tags := SortedMap.empty.insert (ascii "tenant-id") (ascii "globex") }
    acceptsLabels [ascii "tenant-id"] = true ∧
      (labels event [ascii "tenant-id"] event.tags.entries).find? (ascii "tenant_id") =
        some (ascii "globex") ∧
      ¬Protected event [ascii "tenant-id"] := by
  intro event
  have found : (labels event [ascii "tenant-id"] event.tags.entries).find? (ascii "tenant_id") =
      some (ascii "globex") := by
    decide +kernel
  refine ⟨by decide +kernel, found, fun isProtected => ?_⟩
  have kept := (isProtected _ (List.Perm.refl _)).1 (ascii "tenant_id", ascii "acme")
    (by simp [identityLabels, event])
  rw [found] at kept
  exact absurd kept (by decide)

/-! ## Remote write

The connector writes its request as a protobuf message in a snappy block with one literal.
A decoder of both formats reads the series back. -/

open Protobuf Option

def appendUvarint (d : Bytes) (v : Nat) : Bytes :=
  if 0x80 ≤ v then appendUvarint (d ++ [UInt8.ofNat v ||| 0x80]) (v >>> 7)
  else d ++ [UInt8.ofNat v]
termination_by v
decreasing_by
  rw [Nat.shiftRight_eq_div_pow]
  omega

def appendProtoBytes (d : Bytes) (f : Nat) (v : Bytes) : Bytes :=
  appendUvarint (appendUvarint d (f <<< 3 ||| 2)) v.length ++ v

def appendProtoVarint (d : Bytes) (f v : Nat) : Bytes :=
  appendUvarint (appendUvarint d (f <<< 3)) v

def littleEndian64 (v : UInt64) : Bytes :=
  (List.range 8).map fun i => UInt8.ofNat (v.toNat / 256 ^ i)

def appendProtoFixed64 (d : Bytes) (f : Nat) (v : UInt64) : Bytes :=
  appendUvarint d (f <<< 3 ||| 1) ++ littleEndian64 v

def unixMilli (time : Time) : Int :=
  let epoch : Civil := ⟨1970, 1, 1, 0, 0, 0, 0⟩
  Word64.wrap (((time.civil.days - epoch.days) * 86400 + time.civil.secondOfDay - time.offset) *
    1000 + time.civil.nanosecond / 1000000)

def encodeLabel (label : Bytes × Bytes) : Bytes :=
  appendProtoBytes (appendProtoBytes [] 1 label.1) 2 label.2

/-- The request for an event with a value, whose tags are met in some order. -/
def encodePrometheusWriteRequest (event : Event) (value : UInt64) (allowed : List Bytes)
    (tags : List (Bytes × Bytes)) : Bytes :=
  let ts := (labels event allowed tags).entries.foldl
    (fun ts label => appendProtoBytes ts 1 (encodeLabel label)) []
  let sample := appendProtoVarint (appendProtoFixed64 [] 1 value) 2
    (unixMilli event.timestamp % 2 ^ 64).toNat
  appendProtoBytes [] 1 (appendProtoBytes ts 2 sample)

def literalTag (n : Nat) : Bytes :=
  let tag (t : Nat) := UInt8.ofNat (t <<< 2)
  let byte (shift : Nat) := UInt8.ofNat (n >>> shift)
  if n + 1 < 61 then [tag n]
  else if n ≤ 0xff then [tag 60, byte 0]
  else if n ≤ 0xffff then [tag 61, byte 0, byte 8]
  else if n ≤ 0xffffff then [tag 62, byte 0, byte 8, byte 16]
  else [tag 63, byte 0, byte 8, byte 16, byte 24]

def snappyLiteralBlock (p : Bytes) : Bytes :=
  let r := appendUvarint [] p.length
  if p.length = 0 then r else r ++ literalTag (p.length - 1) ++ p

/-- What `Send` posts. An event without a value is refused. -/
def body (event : Event) (allowed : List Bytes) (tags : List (Bytes × Bytes)) : Option Bytes :=
  event.value.map fun value =>
    snappyLiteralBlock (encodePrometheusWriteRequest event value allowed tags)

/-- The elements of a snappy block that are literals; copies do not occur. -/
def decodeLiterals : (fuel : Nat) → Bytes → Option Bytes
  | _, [] => some []
  | 0, _ => none
  | fuel + 1, tag :: rest =>
    if tag.toNat % 4 ≠ 0 then none
    else do
      let n := tag.toNat / 4
      let length ← if n < 60 then some (n, rest)
        else (take? (n - 59) rest).map fun read => (littleEndian read.1, read.2)
      let literal ← take? (length.1 + 1) length.2
      let decoded ← decodeLiterals fuel literal.2
      return literal.1 ++ decoded

def decodeSnappy (data : Bytes) : Option Bytes := do
  let length ← Leb128.decode data
  let decoded ← decodeLiterals length.2.length length.2
  if decoded.length = length.1 then some decoded else none

structure Series where
  labels : List (Bytes × Bytes)
  samples : List (Nat × Int)
deriving DecidableEq

def decodeLabel : Field → Option (Bytes × Bytes)
  | (1, .bytes data) =>
    match decodeMessage data with
    | some [(1, .bytes name), (2, .bytes value)] => some (name, value)
    | _ => none
  | _ => none

def decodeSample : Field → Option (Nat × Int)
  | (2, .bytes data) =>
    match decodeMessage data with
    | some [(1, .fixed64 bits), (2, .varint time)] => some (bits, Word64.wrap time)
    | _ => none
  | _ => none

def decodeSeries : Field → Option Series
  | (1, .bytes data) => do
    let fields ← decodeMessage data
    let labels ← (fields.takeWhile (·.1 = 1)).mapM decodeLabel
    let samples ← (fields.dropWhile (·.1 = 1)).mapM decodeSample
    return ⟨labels, samples⟩
  | _ => none

def decodeRequest (data : Bytes) : Option (List Series) :=
  (decodeSnappy data).bind fun payload =>
    (decodeMessage payload).bind fun fields => fields.mapM decodeSeries

def isLabelName : Bytes → Bool
  | [] => false
  | first :: rest => validRune false 0 first && rest.all (validRune false 1)

theorem appendUvarint_append (d : Bytes) (v : Nat) :
    appendUvarint d v = d ++ appendUvarint [] v := by
  induction v using Nat.strongRecOn generalizing d with
  | ind v induction =>
    conv_lhs => rw [appendUvarint]
    conv_rhs => rw [appendUvarint]
    split_ifs with large
    · have smaller : v >>> 7 < v := by
        rw [Nat.shiftRight_eq_div_pow]
        omega
      rw [induction _ smaller, induction _ smaller ([] ++ _)]
      simp
    · rfl

theorem appendUvarint_isEncoding (v : Nat) :
    Leb128.isEncoding (appendUvarint [] v) = true ∧ Leb128.value (appendUvarint [] v) = v := by
  induction v using Nat.strongRecOn with
  | ind v induction =>
    rw [appendUvarint]
    split_ifs with large
    · rw [Nat.shiftRight_eq_div_pow, appendUvarint_append, nil_append, singleton_append]
      rcases induction (v / 2 ^ 7) (by omega) with ⟨whole, isValue⟩
      have bits := (show ∀ b : UInt8, (b ||| 0x80).toNat % 128 = b.toNat % 128 ∧
        ¬(b ||| 0x80).toNat < 128 by decide +kernel) (UInt8.ofNat v)
      rw [UInt8.toNat_ofNat', Nat.mod_mod_of_dvd _ (by decide)] at bits
      constructor
      · rw [Leb128.isEncoding, if_neg bits.2, whole]
      · rw [Leb128.value, bits.1, isValue]
        omega
    · have small : (UInt8.ofNat v).toNat = v := toNat_ofNat_of_lt (by omega)
      constructor
      · simp [Leb128.isEncoding, small, not_le.mp large]
      · simp only [nil_append, Leb128.value, small]
        omega

theorem decode_appendUvarint (v : Nat) (rest : Bytes) :
    Leb128.decode (appendUvarint [] v ++ rest) = some (v, rest) := by
  rw [Leb128.decode_append (appendUvarint_isEncoding v).1, (appendUvarint_isEncoding v).2]

theorem appendUvarint_ne_nil (v : Nat) : appendUvarint [] v ≠ [] := by
  intro nothing
  have whole := (appendUvarint_isEncoding v).1
  rw [nothing] at whole
  cases whole

theorem decodeField_tag (f : Nat) {wireType : Nat} (small : wireType < 8) (rest : Bytes) :
    decodeField (appendUvarint [] (f <<< 3 ||| wireType) ++ rest) =
      (decodeContent wireType rest).map fun read => ((f, read.1), read.2) := by
  have tag : f <<< 3 ||| wireType = 8 * f + wireType := by
    rw [Nat.shiftLeft_eq, mul_comm]
    exact (Nat.two_pow_add_eq_or_of_lt (i := 3) small f).symm
  have remainder : (8 * f + wireType) % 8 = wireType := by omega
  have quotient : (8 * f + wireType) / 8 = f := by omega
  rw [decodeField, decode_appendUvarint, bind_some, tag]
  simp only [remainder, quotient]

theorem appendProtoBytes_append (d : Bytes) (f : Nat) (v : Bytes) :
    appendProtoBytes d f v = d ++ appendProtoBytes [] f v := by
  rw [appendProtoBytes, appendProtoBytes, appendUvarint_append d, appendUvarint_append (d ++ _),
    appendUvarint_append (appendUvarint [] _)]
  simp only [append_assoc]

theorem encodes_bytes (f : Nat) (v : Bytes) : Encodes (f, .bytes v) (appendProtoBytes [] f v) := by
  simp only [appendProtoBytes, appendUvarint_append (appendUvarint _ _)]
  refine ⟨by simp [appendUvarint_ne_nil], fun rest => ?_⟩
  simp only [append_assoc]
  rw [decodeField_tag f (by decide)]
  simp only [decodeContent, decode_appendUvarint, bind_some, take?_append, map_some]

theorem encodes_varint (f v : Nat) : Encodes (f, .varint v) (appendProtoVarint [] f v) := by
  simp only [appendProtoVarint, appendUvarint_append (appendUvarint _ _)]
  refine ⟨by simp [appendUvarint_ne_nil], fun rest => ?_⟩
  have read := decodeField_tag f (show 0 < 8 by decide) (appendUvarint [] v ++ rest)
  rw [Nat.or_zero] at read
  rw [append_assoc, read]
  simp only [decodeContent, decode_appendUvarint, map_some]

theorem littleEndian_littleEndian64 (v : UInt64) : littleEndian (littleEndian64 v) = v.toNat := by
  have bound := v.toNat_lt
  simp [littleEndian64, range_succ, littleEndian, UInt8.toNat_ofNat']
  omega

theorem encodes_fixed64 (f : Nat) (v : UInt64) :
    Encodes (f, .fixed64 v.toNat) (appendProtoFixed64 [] f v) := by
  refine ⟨by simp [appendProtoFixed64, appendUvarint_ne_nil], fun rest => ?_⟩
  have eight : (littleEndian64 v).length = 8 := rfl
  rw [appendProtoFixed64, append_assoc, decodeField_tag f (by decide)]
  simp only [decodeContent]
  rw [← eight, take?_append, map_some, map_some, littleEndian_littleEndian64]

theorem decodeLabel_encodeLabel (label : Bytes × Bytes) :
    decodeLabel (1, .bytes (encodeLabel label)) = some label := by
  have fields := decodeMessage_flatten (.cons (encodes_bytes 1 label.1)
    (.cons (encodes_bytes 2 label.2) .nil))
  have whole : encodeLabel label =
      [appendProtoBytes [] 1 label.1, appendProtoBytes [] 2 label.2].flatten := by
    simp [encodeLabel, ← appendProtoBytes_append]
  rw [decodeLabel, whole, fields]
  rfl

theorem wrap_unixMilli (time : Time) :
    Word64.wrap ((unixMilli time % 2 ^ 64).toNat : Int) = unixMilli time := by
  have width : (2 : Int) ^ 64 = ((2 ^ 64 : Nat) : Int) := by norm_num
  rw [Int.toNat_of_nonneg (Int.emod_nonneg _ (by decide)), unixMilli, Word64.wrap, Word64.wrap,
    width, Int.emod_bmod, Int.bmod_bmod]

def encodeSample (value : UInt64) (time : Time) : Bytes :=
  appendProtoVarint (appendProtoFixed64 [] 1 value) 2 (unixMilli time % 2 ^ 64).toNat

theorem decodeSample_encodeSample (value : UInt64) (time : Time) :
    decodeSample (2, .bytes (encodeSample value time)) = some (value.toNat, unixMilli time) := by
  have fields := decodeMessage_flatten (.cons (encodes_fixed64 1 value)
    (.cons (encodes_varint 2 (unixMilli time % 2 ^ 64).toNat) .nil))
  have whole : encodeSample value time = [appendProtoFixed64 [] 1 value,
      appendProtoVarint [] 2 (unixMilli time % 2 ^ 64).toNat].flatten := by
    rw [encodeSample, appendProtoVarint, appendProtoVarint,
      appendUvarint_append (appendProtoFixed64 _ _ _), appendUvarint_append (_ ++ _),
      appendUvarint_append (appendUvarint [] _)]
    simp
  rw [decodeSample, whole, fields]
  simp only [wrap_unixMilli]

theorem mapM_decode {α β : Type} {decode : β → Option α} {encode : α → β}
    (inverse : ∀ item, decode (encode item) = some item) (items : List α) :
    (items.map encode).mapM decode = some items := by
  induction items with
  | nil => rfl
  | cons item rest induction => simp [inverse, induction]

def encodeSeries (entries : List (Bytes × Bytes)) (value : UInt64) (time : Time) : Bytes :=
  appendProtoBytes
    (entries.foldl (fun ts label => appendProtoBytes ts 1 (encodeLabel label)) []) 2
    (encodeSample value time)

section

variable (entries : List (Bytes × Bytes))
include entries

theorem foldl_appendProtoBytes (ts : Bytes) :
    entries.foldl (fun ts label => appendProtoBytes ts 1 (encodeLabel label)) ts =
      ts ++ (entries.map fun label => appendProtoBytes [] 1 (encodeLabel label)).flatten := by
  induction entries generalizing ts with
  | nil => simp
  | cons label rest induction =>
    rw [foldl_cons, induction, appendProtoBytes_append, append_assoc]
    rfl

theorem decodeMessage_encodeSeries (value : UInt64) (time : Time) :
    decodeMessage (encodeSeries entries value time) =
      some (entries.map (fun label => (1, .bytes (encodeLabel label))) ++
        [(2, .bytes (encodeSample value time))]) := by
  have encoded : List.Forall₂ Encodes
      (entries.map (fun label => (1, .bytes (encodeLabel label))) ++
        [(2, .bytes (encodeSample value time))])
      ((entries.map fun label => appendProtoBytes [] 1 (encodeLabel label)) ++
        [appendProtoBytes [] 2 (encodeSample value time)]) := by
    induction entries with
    | nil => exact .cons (encodes_bytes 2 _) .nil
    | cons label rest induction => exact .cons (encodes_bytes 1 _) induction
  have fields := decodeMessage_flatten encoded
  rwa [flatten_append, flatten_singleton, ← nil_append (flatten _),
    ← foldl_appendProtoBytes, ← appendProtoBytes_append] at fields

theorem decodeSeries_encodeSeries (value : UInt64) (time : Time) :
    decodeSeries (1, .bytes (encodeSeries entries value time)) =
      some ⟨entries, [(value.toNat, unixMilli time)]⟩ := by
  have isLabel : ∀ field ∈ entries.map (fun label => ((1, .bytes (encodeLabel label)) : Field)),
      decide (field.1 = 1) = true := by
    intro field member
    rcases mem_map.mp member with ⟨label, _, rfl⟩
    rfl
  rw [decodeSeries, decodeMessage_encodeSeries, bind_eq_bind, bind_some,
    takeWhile_append_of_pos isLabel, dropWhile_append_of_pos isLabel,
    takeWhile_cons_of_neg (by simp), dropWhile_cons_of_neg (by simp), append_nil,
    mapM_decode decodeLabel_encodeLabel]
  simp [decodeSample_encodeSample]

end

section Snappy

variable {p : Bytes} {tag : UInt8} {t : Nat}

theorem decodeLiterals_short (fuel : Nat) (isTag : tag.toNat = 4 * t) (small : t < 60)
    (isLength : p.length = t + 1) : decodeLiterals (fuel + 1) (tag :: p) = some p := by
  have all := take?_append p []
  rw [append_nil, isLength] at all
  cases fuel <;> simp [decodeLiterals, isTag, small, all]

theorem decodeLiterals_long (fuel : Nat) (isTag : tag.toNat = 4 * t) (long : 60 ≤ t)
    {size : Bytes} (isSize : size.length = t - 59) (isLength : p.length = littleEndian size + 1) :
    decodeLiterals (fuel + 1) (tag :: (size ++ p)) = some p := by
  have all := take?_append p []
  rw [append_nil, isLength] at all
  have first := take?_append size p
  rw [isSize] at first
  cases fuel <;> simp [decodeLiterals, isTag, not_lt.mpr long, first, all]

theorem decodeLiterals_tag (fuel : Nat) (small : p.length < 2 ^ 32) (nonempty : p.length ≠ 0) :
    decodeLiterals (fuel + 1) (literalTag (p.length - 1) ++ p) = some p := by
  unfold literalTag
  split_ifs
  · change decodeLiterals _ (UInt8.ofNat ((p.length - 1) <<< 2) :: p) = _
    refine decodeLiterals_short fuel (t := p.length - 1) ?_ (by omega) (by omega)
    rw [Nat.shiftLeft_eq, toNat_ofNat_of_lt (by omega)]
    omega
  · refine decodeLiterals_long fuel (t := 60) rfl (by decide) rfl ?_
    simp only [littleEndian, UInt8.toNat_ofNat', Nat.shiftRight_eq_div_pow]
    omega
  · refine decodeLiterals_long fuel (t := 61) rfl (by decide) rfl ?_
    simp only [littleEndian, UInt8.toNat_ofNat', Nat.shiftRight_eq_div_pow]
    omega
  · refine decodeLiterals_long fuel (t := 62) rfl (by decide) rfl ?_
    simp only [littleEndian, UInt8.toNat_ofNat', Nat.shiftRight_eq_div_pow]
    omega
  · refine decodeLiterals_long fuel (t := 63) rfl (by decide) rfl ?_
    simp only [littleEndian, UInt8.toNat_ofNat', Nat.shiftRight_eq_div_pow]
    omega

end Snappy

theorem decodeSnappy_literalBlock {p : Bytes} (small : p.length < 2 ^ 32) :
    decodeSnappy (snappyLiteralBlock p) = some p := by
  rw [snappyLiteralBlock]
  split_ifs with empty
  · have nothing := eq_nil_of_length_eq_zero empty
    have read := decode_appendUvarint 0 []
    rw [append_nil] at read
    simp [nothing, decodeSnappy, read, decodeLiterals]
  · have tagged : (literalTag (p.length - 1) ++ p).length ≠ 0 := by
      rw [length_append]
      omega
    rcases Nat.exists_eq_succ_of_ne_zero tagged with ⟨fuel, isFuel⟩
    rw [append_assoc, decodeSnappy, decode_appendUvarint]
    simp [isFuel, decodeLiterals_tag fuel small empty]

theorem validRune_sanitizeRune (metric : Bool) (i : Nat) (rune : Rune) :
    validRune metric i (sanitizeRune metric i rune) = true := by
  have underscore : validRune metric i 95 = true := by simp [validRune]
  unfold sanitizeRune
  split
  · split_ifs with valid
    · exact valid
    · exact underscore
  · exact underscore

theorem isLabelName_sanitizeLabelName (v : Bytes) : isLabelName (sanitizeLabelName v) = true := by
  rw [sanitizeLabelName, sanitizePrometheusName]
  split
  · decide
  · rw [if_pos (validRune_sanitizeRune _ _ _)]
    simp [isLabelName, validRune_sanitizeRune]

theorem isLabelName_labels (event : Event) (allowed : List Bytes) (tags : List (Bytes × Bytes)) :
    ∀ label ∈ (labels event allowed tags).entries, isLabelName label.1 = true := by
  rw [labels_eq_insertAll]
  refine SortedMap.forall_mem_insertAll (isLabelName ·.1 = true) nofun ?_
  intro label member
  rcases mem_append.mp member with identity | tag
  · simp only [identityLabels, mem_cons, not_mem_nil, or_false] at identity
    rcases identity with rfl | rfl | rfl <;> rfl
  · rcases mem_map.mp tag with ⟨written, _, rfl⟩
    exact isLabelName_sanitizeLabelName written.1

end TelemetryForge.Connectors
