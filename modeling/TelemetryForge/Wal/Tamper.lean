import TelemetryForge.Wal.Audit
import TelemetryForge.Wal.Evidence

/-! # Tamper evidence

What an audit with a trusted key says about a directory that anybody may have written:
as long as nobody else can sign with that key and SHA-256 does not collide on the texts
involved, every segment that a seal names and that is still there holds the records for
which the seal was signed. -/

namespace TelemetryForge.Wal

open Json Program List

variable [FloatText] [Ed25519]

structure Attests (secret : Bytes) (stamp : Seal) (records : List Record) : Prop where
  read : ∀ record ∈ records, ∃ payload, Record.readFrame payload = .ok record
  signed : ∃ (store : Store) (name anchor : Bytes) (first last : Record)
    (firstHash finalHash root : Bytes) (leaves : List Bytes) (now : Now),
    verifyRecordChain records anchor = .ok (finalHash, leaves) ∧
      records.head? = some first ∧ records.getLast? = some last ∧
      leaves.head? = some firstHash ∧ Lineage.merkleRoot leaves = .ok root ∧
      Seal.signSeal secret (unsignedSeal store name records first last firstHash finalHash root
        now) = some stamp

structure Registry (secret : Bytes) where
  issued : Set (Seal × List Record)
  attests : ∀ pair ∈ issued, Attests secret pair.1 pair.2

variable {secret : Bytes} {stamp : Seal} {records : List Record} {disk : Directory}

def Registry.Unforged (registry : Registry secret) (disk : Directory) : Prop :=
  ∀ entry ∈ disk.seals.entries, ∀ stamp, Seal.readSeal entry.2 = some stamp →
    stamp.Signed (Ed25519.publicKey secret) →
      ∃ pair ∈ registry.issued, pair.1.canonicalSealPayload = stamp.canonicalSealPayload

def Registry.hashed (registry : Registry secret) (elsewhere : Bytes → Option Bytes)
    (disk : Directory) : Set Bytes :=
  { text | ∃ records, text ∈ evidence records ∧
    ((∃ name scanned, disk.scan elsewhere name = .ok scanned ∧ records = scanned.records) ∨
      ∃ pair ∈ registry.issued, records = pair.2) }

structure Covers (stamp : Seal) (records : List Record) : Prop where
  checked : ∀ record ∈ records, record.Checked
  formatVersion : stamp.formatVersion = Lineage.sealVersion
  recordCount : stamp.recordCount = records.length
  merkleRoot : Lineage.merkleRoot (records.map Record.digest) = .ok stamp.merkleRoot

omit [FloatText] [Ed25519] in
theorem valid_merkleRoot {leaves : List Bytes} {root : Bytes}
    (computed : Lineage.merkleRoot leaves = .ok root) : Utf8.valid root = true := by
  rcases bind_eq_ok.mp computed with ⟨level, _, found⟩
  split at found
  · cases found
    exact Utf8.valid_of_ascii (hexDecode_ascii (hexDecode_hexEncode _))
  · cases found

theorem Attests.covers (attests : Attests secret stamp records) : Covers stamp records := by
  rcases attests.signed with ⟨store, name, anchor, first, last, firstHash, finalHash, root, leaves,
    now, chain, _, _, _, computed, signed⟩
  rcases verified_of_chain attests.read chain with ⟨verified, rfl⟩
  rcases Option.map_eq_some_iff.mp signed with ⟨payload, _, rfl⟩
  exact ⟨verified.checked, rfl, rfl, computed⟩

omit [FloatText] [Ed25519] in
theorem verifySealAgainstRecords_ok {leaves : List Bytes}
    (agrees : verifySealAgainstRecords stamp records leaves = .ok ()) :
    stamp.recordCount = records.length ∧ Lineage.merkleRoot leaves = .ok stamp.merkleRoot := by
  rw [verifySealAgainstRecords] at agrees
  split at agrees
  · split at agrees
    · cases agrees
    · rename_i root computed
      simp only [ite_error_eq_ok, not_or, not_not] at agrees
      rcases agrees with ⟨⟨_, _, count⟩, ⟨_, _, same⟩, _⟩
      exact ⟨count, by rw [computed, same]⟩
  · cases agrees

omit [Ed25519] in
theorem covers_of_auditContent {previousHash : Bytes} (formed : stamp.Formed)
    (read : ∀ record ∈ records, ∃ payload, Record.readFrame payload = .ok record)
    (audited : auditContent stamp records previousHash = .ok ()) : Covers stamp records := by
  rw [auditContent] at audited
  split at audited
  · cases audited
  rename_i finalHash leaves chain
  rcases verified_of_chain read chain with ⟨verified, rfl⟩
  split at audited
  · cases audited
  rename_i agrees
  rcases verifySealAgainstRecords_ok agrees with ⟨count, root⟩
  exact ⟨verified.checked, formed.formatVersion, count, root⟩

omit [FloatText] [Ed25519] in
theorem payload_determines {left right : Seal} (leftVersion : left.formatVersion = Lineage.sealVersion)
    (rightVersion : right.formatVersion = Lineage.sealVersion)
    (present : right.canonicalSealPayload ≠ none)
    (equal : left.canonicalSealPayload = right.canonicalSealPayload) :
    left.recordCount = right.recordCount ∧
      stringTokens left.merkleRoot = stringTokens right.merkleRoot ∧
      stringTokens left.segment = stringTokens right.segment := by
  rcases Option.ne_none_iff_exists'.mp present with ⟨payload, rightPayload⟩
  rw [rightPayload] at equal
  rcases Option.map_eq_some_iff.mp equal with ⟨leftTime, leftUtc, leftText⟩
  rcases Option.map_eq_some_iff.mp rightPayload with ⟨rightTime, rightUtc, rightText⟩
  have time {civil : Civil} {tokens : List Token} (utc : Seal.utcTokens civil = some tokens) :
      Written maxNestingDepth tokens := by
    rw [Seal.utcTokens] at utc
    split_ifs at utc
    cases utc
    apply written_string
    apply rawString_of_plain
    rw [Civil.utcText, all_append, civilText_plain]
    decide
  have version : 0 ≤ Lineage.sealVersion := by decide
  have leftWritten := Seal.payloadMembers_written (leftVersion.symm ▸ version) (time leftUtc)
  have rightWritten := Seal.payloadMembers_written (rightVersion.symm ▸ version) (time rightUtc)
  have same := structTokens_injective leftWritten rightWritten
    (render_injective (written_structTokens leftWritten) (written_structTokens rightWritten)
      (leftText.trans rightText.symm))
  simp only [Seal.payloadMembers, Seal.textMember, Seal.countMember, Seal.text, Seal.count,
    flatten_cons, cons_append, nil_append, cons.injEq, Prod.mk.injEq, true_and]
    at same
  rcases same with ⟨_, _, _, segment, _, _, count, _, _, root, _⟩
  exact ⟨natTokens_injective count, root, segment⟩

omit [Ed25519] in
theorem agrees_of_payload {left right : Seal} {leftRecords rightRecords : List Record}
    (leftCovers : Covers left leftRecords) (rightCovers : Covers right rightRecords)
    (present : right.canonicalSealPayload ≠ none)
    (equal : left.canonicalSealPayload = right.canonicalSealPayload) {texts : Set Bytes}
    (free : CollisionFree texts) (leftEvidence : evidence leftRecords ⊆ texts)
    (rightEvidence : evidence rightRecords ⊆ texts) :
    List.Forall₂ Record.Agrees leftRecords rightRecords := by
  rcases payload_determines leftCovers.formatVersion rightCovers.formatVersion present equal with
    ⟨count, root, _⟩
  have sameRoot := stringTokens_injective (valid_merkleRoot leftCovers.merkleRoot)
    (valid_merkleRoot rightCovers.merkleRoot) root
  have length : leftRecords.length = rightRecords.length := by
    rw [← leftCovers.recordCount, count, rightCovers.recordCount]
  exact agrees_of_root leftCovers.checked rightCovers.checked free leftEvidence rightEvidence length
    leftCovers.merkleRoot (sameRoot ▸ rightCovers.merkleRoot)

omit [FloatText] in
theorem auditSeals_sound {trusted : Option Bytes} {entries : List (Bytes × Bytes)}
    {previous : Option Seal} {report report' : AuditReport} {stamps : List Seal}
    (audited : auditSeals trusted entries previous report = .ok (stamps, report')) :
    entries.map (fun entry => Seal.readSeal entry.2) = stamps.map some ∧
      (∀ stamp ∈ stamps, stamp.verifySeal trusted = .ok ()) ∧
      (previous.toList ++ stamps).IsChain fun before after =>
        after.firstSequence = before.lastSequence + 1 := by
  induction entries generalizing previous report stamps with
  | nil =>
    cases audited
    refine ⟨rfl, by simp, ?_⟩
    cases previous <;> simp
  | cons entry entries induction =>
    rcases entry with ⟨name, content⟩
    rw [auditSeals] at audited
    split at audited
    · cases audited
    rename_i stamp accepted
    split_ifs at audited
    rcases map_eq_ok.mp audited with ⟨⟨rest, last⟩, inner, equal⟩
    cases equal
    rcases induction inner with ⟨read, verified, chain⟩
    rw [auditSeal] at accepted
    split at accepted
    · cases accepted
    rename_i found read'
    split at accepted
    · cases accepted
    rename_i checked
    rcases map_eq_ok.mp accepted with ⟨_, linked, rfl⟩
    refine ⟨by simp [read', read], ?_, ?_⟩
    · rw [forall_mem_cons]
      exact ⟨checked, verified⟩
    · cases previous with
      | none => exact chain
      | some before =>
        rw [auditLink] at linked
        simp only [ite_error_eq_ok, not_or, not_not] at linked
        exact List.IsChain.cons_cons linked.1.2 chain

section

omit [Ed25519]

theorem auditSegments_content {scan : Bytes → Except Failure Scanned} {stamps : List Seal}
    {index : Nat} {previousHash : Bytes} {report : AuditReport} {result : Bytes × AuditReport}
    (audited : auditSegments scan stamps index previousHash report = .ok result) :
    ∀ stamp ∈ stamps, ∀ scanned, scan stamp.segment = .ok scanned →
      ∃ anchor, auditContent stamp scanned.records anchor = .ok () := by
  induction stamps generalizing index previousHash report with
  | nil => simp
  | cons stamp rest induction =>
    rw [auditSegments] at audited
    split at audited
    · cases audited
    rename_i noted step
    rw [forall_mem_cons]
    refine ⟨?_, induction audited⟩
    intro scanned found
    rw [auditSegment, found] at step
    simp only at step
    split at step
    · cases step
    · rename_i accepted
      exact ⟨previousHash, accepted⟩

theorem scan_read {elsewhere : Bytes → Option Bytes} {name : Bytes} {scanned : Scanned}
    (found : disk.scan elsewhere name = .ok scanned) :
    ∀ record ∈ scanned.records, ∃ payload, Record.readFrame payload = .ok record := by
  rw [Directory.scan] at found
  split at found
  · cases found
  split at found
  · cases found
  rename_i content _ _ scan frames
  rw [scanContent] at frames
  split_ifs at frames
  rcases result : FrameLog.scan maxFrameBytes Record.readFrame segmentHeaderBytes
    (content.drop segmentHeaderBytes) with fault | inner
  · rw [result] at frames
    cases frames
  · rw [result] at frames
    cases frames
    split_ifs at found
    cases found
    exact FrameLog.scanFrames_read result

theorem scan_of_locate {elsewhere : Bytes → Option Bytes} {name content : Bytes}
    (present : disk.locate elsewhere name = some content) (other : Bytes) :
    disk.scan elsewhere name ≠ .error (.notExist other) := by
  intro missing
  simp only [Directory.scan, present] at missing
  split at missing
  · rename_i failure frames
    cases missing
    exact scanContent_ne_notExist _ _ other frames
  · split_ifs at missing <;> cases missing

end

/-- A directory that passes the audit with the signer's key has a contiguous sequence of
issued seals, and each segment that is there holds the records its seal was issued for. -/
theorem tamper_evident (registry : Registry secret) {elsewhere : Bytes → Option Bytes}
    {report : AuditReport}
    (audited : auditDirectory (some (Ed25519.publicKey secret)) elsewhere disk = .ok report)
    (unforged : registry.Unforged disk) (free : CollisionFree (registry.hashed elsewhere disk)) :
    ∃ stamps : List Seal,
      disk.seals.entries.map (fun entry => Seal.readSeal entry.2) = stamps.map some ∧
      (stamps.IsChain fun before after => after.firstSequence = before.lastSequence + 1) ∧
      ∀ stamp ∈ stamps, stamp.firstSequence ≤ stamp.lastSequence ∧
        (∃ pair ∈ registry.issued, pair.1.canonicalSealPayload = stamp.canonicalSealPayload) ∧
        ∀ content, disk.locate elsewhere stamp.segment = some content →
          ∃ scanned, disk.scan elsewhere stamp.segment = .ok scanned ∧
            ∀ pair ∈ registry.issued,
              pair.1.canonicalSealPayload = stamp.canonicalSealPayload →
                Utf8.coerce pair.1.segment = stamp.segment ∧
                  List.Forall₂ Record.Agrees scanned.records pair.2 := by
  rw [auditDirectory] at audited
  split at audited
  · cases audited
  rename_i stamps _ seals
  split at audited
  · cases audited
  rename_i segments
  rcases auditSeals_sound seals with ⟨read, verified, chain⟩
  refine ⟨stamps, read, chain, fun stamp member => ?_⟩
  rcases Seal.verifySeal_ok_iff.mp (verified stamp member) with ⟨formed, key, signed, trusted⟩
  have sameKey : Ed25519.publicKey secret = key := by simpa using trusted
  subst sameKey
  have sealed : ∃ entry ∈ disk.seals.entries, Seal.readSeal entry.2 = some stamp := by
    have inside : some stamp ∈ stamps.map some := mem_map_of_mem member
    rw [← read] at inside
    exact mem_map.mp inside
  rcases sealed with ⟨entry, entryMember, stampRead⟩
  have present : stamp.canonicalSealPayload ≠ none := by
    rcases signed.signature with ⟨_, payload, _, _, found, _⟩
    rw [found]
    simp
  refine ⟨formed.range.2.1, unforged entry entryMember stamp stampRead signed, ?_⟩
  intro content located
  rcases scan : disk.scan elsewhere stamp.segment with failure | scanned
  · rcases auditSegments_scans segments stamp member failure scan with ⟨name, rfl⟩
    exact absurd scan (scan_of_locate located name)
  refine ⟨scanned, rfl, fun pair issued payload => ?_⟩
  rcases auditSegments_content segments stamp member scanned scan with ⟨anchor, accepted⟩
  have covers := covers_of_auditContent formed (scan_read scan) accepted
  have issuedCovers := (registry.attests pair issued).covers
  have names := (payload_determines issuedCovers.formatVersion covers.formatVersion present
    payload).2.2
  refine ⟨?_, ?_⟩
  · simp only [stringTokens, cons.injEq, Token.string.injEq, and_true] at names
    rw [← unquote_quote, names]
    exact unquote_quote_of_valid (Seal.valid_of_readSeal stampRead .segment)
  · apply agrees_of_payload covers issuedCovers (payload ▸ present) payload.symm free
    · exact fun text hashed => ⟨_, hashed, .inl ⟨_, _, scan, rfl⟩⟩
    · exact fun text hashed => ⟨_, hashed, .inr ⟨pair, issued, rfl⟩⟩

omit [Ed25519] in
theorem scanSegment_result (name : Bytes) (store : Store) (disk : Directory) :
    (scanSegment name false store disk).result = disk.scan (fun _ => none) name := by
  rw [Directory.scan, Directory.locate]
  simp only [scanSegment, Program.getDisk_bind]
  rcases found : disk.segments.find? name with _ | file
  · simp only [ite_self]
    rfl
  · simp only
    rcases scanContent name file.content with failure | scan
    · rfl
    · simp only [Bool.false_eq_true, if_false]
      split_ifs <;> rfl

section Log

variable {edgeID : Bytes} {log : Log edgeID}

theorem SealedSegment.attests (segment : SealedSegment edgeID) :
    Attests secret (segment.stamp secret) segment.records where
  read record member := ⟨_, (segment.entries record member).accepts.read⟩
  signed := by
    have root := (Segment.merkleRoot_eq segment.nonempty).1
    rcases records : segment.records with _ | ⟨first, rest⟩
    · exact absurd records segment.nonempty
    rcases found : segment.records.getLast? with _ | last
    · exact absurd (getLast?_eq_none_iff.mp found) segment.nonempty
    have chained := segment.chained
    rw [records] at chained
    have final := (chained_getLast segment.chained found).1
    refine ⟨⟨edgeID, 0, 0, [], none, 0, 0, 0, .empty, 0, none, false, false, [], [],
      segment.previousRoot, 0⟩, segment.name, segment.anchor, first, last, first.digest,
      segment.hash, segment.root, segment.records.map Record.digest, segment.sealedAt, ?_, rfl, ?_,
      ?_, root, ?_⟩
    · rw [← records]
      exact segment.verifyRecordChain
    · rw [← records, found]
    · rw [records]
      rfl
    · have firstHash : segment.firstHash = first.digest := by simp [Segment.firstHash, records]
      rw [← segment.signSeal secret, unsignedSeal, SealedSegment.unsigned, ← records, firstHash,
        final, chained.1]
      rfl

def Log.registry (log : Log edgeID) (secret : Bytes) : Registry secret where
  issued := { pair | ∃ segment ∈ log.sealed, pair = (segment.stamp secret, segment.records) }
  attests := by
    rintro pair ⟨segment, _, rfl⟩
    exact segment.attests

theorem Image.unforged (image : Image log [] secret disk) :
    (log.registry secret).Unforged disk := by
  intro entry member stamp read _
  rw [image.seals] at member
  rcases mem_map.mp member with ⟨segment, inside, rfl⟩
  rw [segment.readSeal secret] at read
  cases read
  exact ⟨_, ⟨segment, inside, rfl⟩, rfl⟩

theorem Image.hashed (image : Image log [] secret disk) :
    (log.registry secret).hashed (fun _ => none) disk ⊆
      { text | ∃ records, text ∈ evidence records ∧ records.Sublist log.records } := by
  have sealed {segment : SealedSegment edgeID} (member : segment ∈ log.sealed) :
      segment.records.Sublist log.records := by
    rcases append_of_mem member with ⟨before, after, split⟩
    rw [Log.records, split, flatMap_append, flatMap_cons, append_assoc, append_assoc]
    exact (sublist_append_left _ _).trans (sublist_append_right _ _)
  rintro text ⟨records, hashed, ⟨name, scanned, scan, rfl⟩ | ⟨pair, ⟨segment, member, rfl⟩, rfl⟩⟩
  · refine ⟨_, hashed, ?_⟩
    rcases found : disk.segments.find? name with _ | file
    · simp [Directory.scan, Directory.locate, found] at scan
    · have member := (SortedMap.find?_eq_some_iff _ _ _).mp found
      rw [image.files, Log.files, mem_append] at member
      rcases member with retained | active
      · rcases mem_map.mp retained with ⟨segment, inside, same⟩
        cases same
        rw [scan_segment _ (image.find_retained inside)] at scan
        cases scan
        exact sealed (mem_append_right _ inside)
      · rcases mem_map.mp active with ⟨segment, inside, same⟩
        cases same
        have listed : log.active = some segment := by simpa using inside
        have file := image.find_active listed
        rw [append_nil] at file
        rw [scan_segment _ file] at scan
        cases scan
        rw [Log.records, Log.activeRecords, listed]
        exact sublist_append_right _ _
  · exact ⟨_, hashed, sealed member⟩

end Log

omit [Ed25519] in
theorem evidence_single {record : Record} (current : record.formatVersion = version)
    {records : List Record} (single : records.Sublist [record.reread]) :
    evidence records ⊆ record.digested := by
  have leaf : record.reread.leafText = record.reread.material := if_pos current
  rcases sublist_singleton.mp single with rfl | rfl
  · rintro text (⟨record, member, _⟩ | ⟨pair, member, _⟩)
    · cases member
    · cases member
  · rintro text (⟨other, member, hashed⟩ | ⟨pair, member, _⟩)
    · rw [mem_singleton.mp member] at hashed
      rcases hashed with rfl | event
      · exact .inr (.inr (.inr leaf))
      · exact .inr (.inl event)
    · cases member

theorem close_evident {edgeID : Bytes} {log : Log edgeID} {store : Store} {record : Record}
    (running : Running log secret store disk) (clock : Clock)
    (records : log.records = [record.reread]) (current : record.formatVersion = version)
    (free : CollisionFree record.digested) :
    let after := (close clock store disk).disk
    ∃ (registry : Registry secret) (report : AuditReport), after.seals.entries ≠ [] ∧
      auditDirectory (some (Ed25519.publicKey secret)) (fun _ => none) after = .ok report ∧
      registry.Unforged after ∧ CollisionFree (registry.hashed (fun _ => none) after) := by
  rcases (close_ensures running clock).post with ⟨_, _, other, closes, image, _⟩
  have same : other.records = [record.reread] :=
    (congrArg History.records closes.history).trans records
  have idle : other.activeRecords = [] := by
    cases closes with
    | empty segment active empty => simp [Log.activeRecords, active, empty]
    | sealed segment active nonempty now => rfl
  rcases auditDirectory_image (.inr rfl) image (fun _ => none) with ⟨report, audited, _⟩
  refine ⟨other.registry secret, report, ?_, audited, image.unforged, ?_⟩
  · rw [image.seals, Log.sealFiles]
    intro none
    rw [Log.records, map_eq_nil_iff.mp none, idle] at same
    cases same
  · refine free.mono fun text hashed => ?_
    rcases image.hashed hashed with ⟨list, inside, sublist⟩
    rw [same] at sublist
    exact evidence_single current sublist inside

namespace Sample

omit [FloatText] [Ed25519]

def closing : List Action := twice.take 2 ++ [.close clock]

theorem once_returned : (Sample.host Sample.config (twice.take 2)).returned.length = 1 ∧
    (∀ record ∈ (Sample.host Sample.config (twice.take 2)).returned,
      @Scannable floatText record ∧ record.formatVersion = version ∧
      ((@Record.digestedTexts floatText record).dedup.map Sha256.sum256).Nodup) ∧
    (Sample.host Sample.config (twice.take 2)).store.isSome = true ∧
    ∀ store ∈ (Sample.host Sample.config (twice.take 2)).store, store.closed = false := by
  decide +kernel

theorem closing_evident : ∃ (secret : Bytes)
    (registry : @Registry floatText signatures secret) (report : AuditReport),
    (Sample.host Sample.config closing).directory.seals.entries ≠ [] ∧
    @auditDirectory floatText signatures (some (signatures.publicKey secret)) (fun _ => none)
      (Sample.host Sample.config closing).directory = .ok report ∧
    @Registry.Unforged floatText signatures secret registry
      (Sample.host Sample.config closing).directory ∧
    CollisionFree (@Registry.hashed floatText signatures secret registry (fun _ => none)
      (Sample.host Sample.config closing).directory) := by
  rcases once_returned with ⟨single, facts, present, opened⟩
  rcases length_eq_one_iff.mp single with ⟨record, returned⟩
  rcases Option.isSome_iff_exists.mp present with ⟨store, found⟩
  have fact := facts record (by simp [returned])
  rcases @run_replays floatText signatures Sample.config (by decide) (twice.take 2)
    (fun other member => (facts other member).1) with ⟨⟨history, replays, holds⟩, _⟩
  rcases @Holds.running floatText signatures _ _ _ _ holds found (opened store found) with
    ⟨log, secret, rfl, _, running⟩
  have step : Sample.host Sample.config closing =
      (Sample.host Sample.config (twice.take 2)).finish
        (@close floatText signatures clock store
          (Sample.host Sample.config (twice.take 2)).directory) [] :=
    (@Host.run_concat floatText signatures _ _ _ _).trans
      (@Host.act_close floatText signatures Sample.config _ _ found clock)
  have records : @Log.records floatText _ log = [record.reread] := by
    have all := @Replays.records floatText _ _ replays
    rw [show (@Host.run floatText signatures Sample.config .empty (twice.take 2)).returned =
      [record] from returned] at all
    exact all
  rw [step]
  exact ⟨secret, @close_evident floatText signatures secret _ _ log store record running clock
    records fact.2.1 (@Record.collisionFree_of_nodup floatText record fact.2.2)⟩

end Sample

omit [FloatText] [Ed25519] in
theorem tamper_evident_sample : ∃ (secret : Bytes)
    (registry : @Registry Sample.floatText Sample.signatures secret) (stamps : List Seal),
    stamps ≠ [] ∧
    (Sample.host Sample.config Sample.closing).directory.seals.entries.map
      (fun entry => Seal.readSeal entry.2) = stamps.map some ∧
    ∀ stamp ∈ stamps, ∃ pair ∈ @Registry.issued Sample.floatText Sample.signatures secret registry,
      pair.1.canonicalSealPayload = stamp.canonicalSealPayload := by
  rcases Sample.closing_evident with ⟨secret, registry, report, present, audited, unforged, free⟩
  rcases @tamper_evident Sample.floatText Sample.signatures secret _ registry _ report audited
    unforged free with ⟨stamps, read, _, holds⟩
  refine ⟨secret, registry, stamps, ?_, read, fun stamp member => (holds stamp member).2.1⟩
  rintro rfl
  exact present (map_eq_nil_iff.mp read)

end TelemetryForge.Wal
