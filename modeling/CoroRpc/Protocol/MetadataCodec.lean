import CoroRpc.Protocol.Metadata

/-!
# What the codec of request metadata does

The envelope of `Protocol/Metadata.lean`, in closed form (`RequestMetadata.bytes`): which metadata
the encoder accepts, what it writes, and what the decoder makes of any string at all. The decoder
is a partial inverse that ignores what follows the envelope, so it is compared with `bytes ++ t`
for an arbitrary `t`. Soundness is the half that carries the argument: the header of an accepted
string is put back together field by field, as in `HeaderReads.take_eq`, and the four strings are
cut from what follows it without overlap.

`FrameEncoder::EncodeRequest` predicts the size of the envelope to write the frame's header before
it; that the prediction is the size of what is appended is `length_bytes`.
-/

namespace CoroRpc.Protocol

open Lib List FrameEncoder RequestMetadata

/-! ## The envelope -/

namespace RequestMetadata

variable {metadata : RequestMetadata}

/-- The metadata that the encoder accepts. -/
def Encodable (metadata : RequestMetadata) : Prop :=
  metadata.service.length ≤ kMaxFieldSize ∧ metadata.method.length ≤ kMaxFieldSize ∧
    metadata.idempotencyKey.length ≤ kMaxFieldSize ∧
    metadata.applicationMetadata.length ≤ kMaxFieldSize

def encodedSize (metadata : RequestMetadata) : Nat :=
  kHeaderSize + metadata.service.length + metadata.method.length +
    metadata.idempotencyKey.length + metadata.applicationMetadata.length

/-- What `AppendRequestMetadata` appends. -/
def bytes (metadata : RequestMetadata) : Bytes :=
  kMetadataMagic ++ putU64 metadata.timeoutMs ++ putU32 (UInt32.ofNat metadata.service.length) ++
    putU32 (UInt32.ofNat metadata.method.length) ++
    putU32 (UInt32.ofNat metadata.idempotencyKey.length) ++
    putU32 (UInt32.ofNat metadata.applicationMetadata.length) ++
    metadata.service ++ metadata.method ++ metadata.idempotencyKey ++
    metadata.applicationMetadata

@[simp] theorem length_bytes (metadata : RequestMetadata) :
    metadata.bytes.length = metadata.encodedSize := by
  simp [bytes, encodedSize, kMetadataMagic, kHeaderSize]
  omega

theorem encodedSize_lt (h : metadata.Encodable) : metadata.encodedSize < 2 ^ 32 := by
  obtain ⟨h1, h2, h3, h4⟩ := h
  simp only [kMaxFieldSize] at h1 h2 h3 h4
  simp only [encodedSize, kHeaderSize]
  omega

end RequestMetadata

variable {metadata : RequestMetadata}

theorem requestMetadataEncodedSize_eq_ok {n : Nat} : requestMetadataEncodedSize metadata = .ok n ↔
      metadata.Encodable ∧ n = metadata.encodedSize := by
  by_cases h : metadata.Encodable
  · -- The total cannot exceed 32 bits.
    have hsize := encodedSize_lt h
    have hle : ¬ metadata.encodedSize > UInt32.size - 1 := by
      simp only [UInt32.size]
      omega
    obtain ⟨h1, h2, h3, h4⟩ := id h
    have heq : requestMetadataEncodedSize metadata = .ok metadata.encodedSize := by
      unfold requestMetadataEncodedSize checkField
      simp only [h1, h2, h3, h4, if_true]
      exact if_neg hle
    rw [heq, Except.ok.injEq, and_iff_right h]
    exact eq_comm
  · refine ⟨fun hok => absurd ?_ h, fun hok => absurd hok.1 h⟩
    unfold requestMetadataEncodedSize checkField at hok
    by_cases h1 : metadata.service.length ≤ kMaxFieldSize
    case neg => simp [h1, bind, Except.bind] at hok
    by_cases h2 : metadata.method.length ≤ kMaxFieldSize
    case neg => simp [h1, h2, bind, Except.bind] at hok
    by_cases h3 : metadata.idempotencyKey.length ≤ kMaxFieldSize
    case neg => simp [h1, h2, h3, bind, Except.bind] at hok
    by_cases h4 : metadata.applicationMetadata.length ≤ kMaxFieldSize
    case neg => simp [h1, h2, h3, h4, bind, Except.bind] at hok
    exact ⟨h1, h2, h3, h4⟩

/-- An encoder that starts with the size check fails where the metadata is not encodable. -/
theorem not_encodable_of_error {e : String} (h : requestMetadataEncodedSize metadata = .error e) :
    ¬ metadata.Encodable := by
  intro henc
  rw [requestMetadataEncodedSize_eq_ok.mpr ⟨henc, rfl⟩] at h
  cases h

theorem appendRequestMetadata_eq_ok {output bs : Bytes} :
    appendRequestMetadata metadata output = .ok bs ↔
      metadata.Encodable ∧ bs = output ++ metadata.bytes := by
  unfold appendRequestMetadata
  cases hsize : requestMetadataEncodedSize metadata with
  | error e => simp [bind, Except.bind, not_encodable_of_error hsize]
  | ok n =>
    have h := (requestMetadataEncodedSize_eq_ok.mp hsize).1
    simp only [bind, Except.bind, pure, Except.pure, Except.ok.injEq, h, true_and,
      bytes, append_assoc]
    exact eq_comm

theorem encodeRequestMetadata_eq_ok {bs : Bytes} :
    encodeRequestMetadata metadata = .ok bs ↔ metadata.Encodable ∧ bs = metadata.bytes := by
  unfold encodeRequestMetadata
  cases hsize : requestMetadataEncodedSize metadata with
  | error e => simp [bind, Except.bind, not_encodable_of_error hsize]
  | ok n => exact appendRequestMetadata_eq_ok

/-! ## Decoding -/

section
variable {metadata : RequestMetadata}

/-- **The envelope reads back** as the metadata it was written from, whatever follows it. -/
theorem decodeRequestMetadataView_bytes (h : metadata.Encodable) (t : Bytes)
    (out : RequestMetadata) :
    decodeRequestMetadataView (metadata.bytes ++ t) out = (metadata, .ok ()) := by
  obtain ⟨h1, h2, h3, h4⟩ := id h
  have hlen : ∀ {value : Bytes}, value.length ≤ kMaxFieldSize →
      (UInt32.ofNat value.length).toNat = value.length := by
    intro value hv
    refine toNat_ofNat_length ?_
    simp only [kMaxFieldSize] at hv
    omega
  have hlong : ¬ ((metadata.bytes ++ t).length < kHeaderSize ∨
      (metadata.bytes ++ t).take 4 ≠ kMetadataMagic) := by
    rw [length_append, length_bytes]
    simp [encodedSize, bytes, kMetadataMagic]
    omega
  have hfields : (metadata.bytes ++ t).drop kHeaderSize = metadata.service ++ (metadata.method ++
      (metadata.idempotencyKey ++ (metadata.applicationMetadata ++ t))) := by
    simp [bytes, kMetadataMagic, kHeaderSize, drop_append, drop_of_length_le]
  have htimeout : getU64 ((metadata.bytes ++ t).drop 4) = metadata.timeoutMs := by
    simp [bytes, kMetadataMagic, drop_append]
  have hservice : getU32 ((metadata.bytes ++ t).drop 12) =
      UInt32.ofNat metadata.service.length := by
    simp [bytes, kMetadataMagic]
  have hmethod : getU32 ((metadata.bytes ++ t).drop 16) = UInt32.ofNat metadata.method.length := by
    simp [bytes, kMetadataMagic, drop_append, drop_of_length_le]
  have hkey : getU32 ((metadata.bytes ++ t).drop 20) =
      UInt32.ofNat metadata.idempotencyKey.length := by
    simp [bytes, kMetadataMagic, drop_append, drop_of_length_le]
  have happlication : getU32 ((metadata.bytes ++ t).drop 24) =
      UInt32.ofNat metadata.applicationMetadata.length := by
    simp [bytes, kMetadataMagic, drop_append, drop_of_length_le]
  unfold decodeRequestMetadataView
  rw [if_neg hlong, hservice, hmethod, hkey, happlication, htimeout]
  simp only [hlen h1, hlen h2, hlen h3, hlen h4, length_append, length_bytes, ← drop_drop, hfields]
  rw [if_neg]
  · obtain ⟨service, method, key, application, timeout⟩ := metadata
    simp
  · simp only [encodedSize]
    omega

theorem decodeRequestMetadata_bytes (h : metadata.Encodable) :
    decodeRequestMetadata metadata.bytes = .ok metadata := by
  have hview := decodeRequestMetadataView_bytes h [] ⟨[], [], [], [], 0⟩
  rw [append_nil] at hview
  rw [decodeRequestMetadata, hview]

end

theorem envelope_eq {x : Bytes} (hlen : kHeaderSize ≤ x.length)
    (hmagic : x.take 4 = kMetadataMagic) :
    x = kMetadataMagic ++ putU64 (getU64 (x.drop 4)) ++ putU32 (getU32 (x.drop 12)) ++
      putU32 (getU32 (x.drop 16)) ++ putU32 (getU32 (x.drop 20)) ++ putU32 (getU32 (x.drop 24)) ++
      x.drop kHeaderSize := by
  have hlen' : 28 ≤ x.length := hlen
  have h4 := drop_eq_putU64 (x := x) (n := 4) (by omega)
  have h12 := drop_eq_putU32 (x := x) (n := 12) (by omega)
  have h16 := drop_eq_putU32 (x := x) (n := 16) (by omega)
  have h20 := drop_eq_putU32 (x := x) (n := 20) (by omega)
  have h24 := drop_eq_putU32 (x := x) (n := 24) (by omega)
  conv_lhs => rw [← take_append_drop 4 x, hmagic, h4, h12, h16, h20, h24]
  simp [kHeaderSize]

/-- A header that announces four strings, and enough bytes behind it, are an envelope and then some
    bytes: the strings are cut off one after the other. -/
theorem bytes_of_fields {fields : Bytes} {service method key application : UInt32}
    (timeoutMs : UInt64) (h1 : service.toNat ≤ kMaxFieldSize) (h2 : method.toNat ≤ kMaxFieldSize)
    (h3 : key.toNat ≤ kMaxFieldSize) (h4 : application.toNat ≤ kMaxFieldSize)
    (hroom : service.toNat + method.toNat + key.toNat + application.toNat ≤ fields.length) :
    ∃ metadata t, RequestMetadata.Encodable metadata ∧
      kMetadataMagic ++ putU64 timeoutMs ++ putU32 service ++ putU32 method ++ putU32 key ++
        putU32 application ++ fields = metadata.bytes ++ t := by
  have hcut : ∀ {n k}, n + k ≤ fields.length → ((fields.drop n).take k).length = k := by
    intro n k h
    rw [length_take, length_drop]
    omega
  have hsplit : ∀ n k, fields.drop n = (fields.drop n).take k ++ fields.drop (n + k) := by
    intro n k
    rw [← drop_drop, take_append_drop]
  have hl1 := hcut (n := 0) (k := service.toNat) (by omega)
  have hl2 := hcut (n := service.toNat) (k := method.toNat) (by omega)
  have hl3 := hcut (n := service.toNat + method.toNat) (k := key.toNat) (by omega)
  have hl4 := hcut (n := service.toNat + method.toNat + key.toNat) (k := application.toNat)
    (by omega)
  refine ⟨⟨(fields.drop 0).take service.toNat, (fields.drop service.toNat).take method.toNat,
      (fields.drop (service.toNat + method.toNat)).take key.toNat,
      (fields.drop (service.toNat + method.toNat + key.toNat)).take application.toNat, timeoutMs⟩,
    fields.drop (service.toNat + method.toNat + key.toNat + application.toNat),
    ⟨Nat.le_trans (Nat.le_of_eq hl1) h1, Nat.le_trans (Nat.le_of_eq hl2) h2,
      Nat.le_trans (Nat.le_of_eq hl3) h3, Nat.le_trans (Nat.le_of_eq hl4) h4⟩, ?_⟩
  have h0 := hsplit 0 service.toNat
  rw [Nat.zero_add, hsplit service.toNat method.toNat,
    hsplit (service.toNat + method.toNat) key.toNat,
    hsplit (service.toNat + method.toNat + key.toNat) application.toNat] at h0
  simp only [bytes, hl1, hl2, hl3, hl4, UInt32.ofNat_toNat, append_assoc]
  rw [← h0, drop_zero]

/-- **Nothing else is accepted**: what decodes is an envelope and then some bytes. -/
theorem bytes_of_decodeRequestMetadataView {x : Bytes} {out : RequestMetadata}
    (h : (decodeRequestMetadataView x out).2 = .ok ()) :
    ∃ metadata t, RequestMetadata.Encodable metadata ∧ x = metadata.bytes ++ t := by
  unfold decodeRequestMetadataView at h
  split at h
  · cases h
  rename_i hlong
  rw [not_or, Nat.not_lt, not_not] at hlong
  dsimp only at h
  split at h
  · cases h
  rename_i hsizes
  simp only [not_or, Nat.not_lt] at hsizes
  obtain ⟨h1, h2, h3, h4, hroom⟩ := hsizes
  rw [← length_drop] at hroom
  rw [envelope_eq hlong.1 hlong.2]
  exact bytes_of_fields _ h1 h2 h3 h4 hroom

theorem decodeRequestMetadataView_error {x : Bytes} {out : RequestMetadata} {e : String}
    (h : (decodeRequestMetadataView x out).2 = .error e) :
    (decodeRequestMetadataView x out).1 = out := by
  unfold decodeRequestMetadataView at h ⊢
  split
  · rfl
  rename_i hlong
  rw [if_neg hlong] at h
  dsimp only at h ⊢
  split
  · rfl
  rename_i hsizes
  rw [if_neg hsizes] at h
  cases h

/-- The string starts with the encoding of this metadata. -/
def RequestMetadata.Heads (metadata : RequestMetadata) (x : Bytes) : Prop :=
  metadata.Encodable ∧ ∃ bs t, encodeRequestMetadata metadata = .ok bs ∧ x = bs ++ t

theorem RequestMetadata.heads_iff {x : Bytes} :
    metadata.Heads x ↔ metadata.Encodable ∧ ∃ t, x = metadata.bytes ++ t := by
  constructor
  · rintro ⟨h, bs, t, hbs, rfl⟩
    exact ⟨h, t, by rw [(encodeRequestMetadata_eq_ok.mp hbs).2]⟩
  · rintro ⟨h, t, rfl⟩
    exact ⟨h, metadata.bytes, t, encodeRequestMetadata_eq_ok.mpr ⟨h, rfl⟩, rfl⟩

/-- **Decoding inverts encoding and accepts nothing else**: a string decodes iff it starts with the
    encoding of some metadata, of one only, and then to exactly that; a string that does not decode
    leaves the output parameter as it was. -/
theorem metadata_decode_inverts_encode (x : Bytes) (out : RequestMetadata) :
    ((decodeRequestMetadataView x out).2 = .ok () ↔
      ∃ metadata : RequestMetadata, metadata.Heads x) ∧
    (∀ metadata metadata' : RequestMetadata, metadata.Heads x → metadata'.Heads x →
      metadata = metadata') ∧
    (∀ metadata : RequestMetadata, metadata.Heads x →
      decodeRequestMetadataView x out = (metadata, .ok ())) ∧
    ∀ e, (decodeRequestMetadataView x out).2 = .error e →
      (decodeRequestMetadataView x out).1 = out := by
  have hdecodes : ∀ metadata, metadata.Heads x →
      decodeRequestMetadataView x out = (metadata, .ok ()) := by
    intro metadata hheads
    obtain ⟨h, t, rfl⟩ := heads_iff.mp hheads
    exact decodeRequestMetadataView_bytes h t out
  refine ⟨⟨fun h => ?_, fun ⟨metadata, h⟩ => ?_⟩, fun metadata metadata' h h' => ?_, hdecodes,
    fun e h => decodeRequestMetadataView_error h⟩
  · obtain ⟨metadata, t, henc, hx⟩ := bytes_of_decodeRequestMetadataView h
    exact ⟨metadata, heads_iff.mpr ⟨henc, t, hx⟩⟩
  · rw [hdecodes metadata h]
  · exact congrArg Prod.fst ((hdecodes metadata h).symm.trans (hdecodes metadata' h'))

/-! ## The frame -/

/-- The frame that `EncodeRequest` writes. -/
def requestFrame (metadata : RequestMetadata) (body : Bytes) (requestId : UInt64) : Frame :=
  ⟨{ messageType := .request, requestId := requestId }, metadata.bytes, body⟩

section
variable {metadata : RequestMetadata} {body encoded : Bytes} {requestId : UInt64}

theorem encodeRequest_eq_ok : encodeRequest metadata body requestId = .ok encoded ↔
      requestId ≠ 0 ∧ metadata.Encodable ∧ body.length < 2 ^ 32 ∧
        encoded = (requestFrame metadata body requestId).bytes := by
  unfold encodeRequest
  by_cases hid : requestId = 0
  case pos => simp [hid]
  rw [if_neg hid, and_iff_right hid]
  cases hsize : requestMetadataEncodedSize metadata with
  | error e => simp [not_encodable_of_error hsize]
  | ok metadataSize =>
    obtain ⟨h, rfl⟩ := requestMetadataEncodedSize_eq_ok.mp hsize
    by_cases hbody : body.length < 2 ^ 32
    · have hle : ¬ body.length > UInt32.size - 1 := by
        simp only [UInt32.size]
        omega
      simp only [if_neg hle, appendRequestMetadata_eq_ok.mpr ⟨h, rfl⟩, bind, Except.bind, pure,
        Except.pure, Except.ok.injEq, h, hbody, true_and]
      -- the predicted size is the size of the envelope
      rw [← length_bytes]
      exact eq_comm
    · have hgt : body.length > UInt32.size - 1 := by
        simp only [UInt32.size]
        omega
      simp only [if_pos hgt, hbody, reduceCtorEq, false_and, and_false]

theorem encodable_requestFrame (hid : requestId ≠ 0) (h : metadata.Encodable)
    (hbody : body.length < 2 ^ 32) : (requestFrame metadata body requestId).Encodable := by
  refine ⟨?_, hbody, rfl, fun _ => hid⟩
  rw [requestFrame, length_bytes]
  exact encodedSize_lt h

end

/-- **The direct path writes what the two steps write**: `EncodeRequest` succeeds where encoding the
    metadata and then the frame does, with the same bytes. -/
theorem encodeRequest_eq_two_steps (metadata : RequestMetadata) (body : Bytes) (requestId : UInt64)
    (encoded : Bytes) :
    encodeRequest metadata body requestId = .ok encoded ↔
      ∃ bs, encodeRequestMetadata metadata = .ok bs ∧
        encode ⟨{ flags := 0, messageType := .request, requestId := requestId }, bs,
          body⟩ = .ok encoded := by
  rw [encodeRequest_eq_ok]
  constructor
  · rintro ⟨hid, h, hbody, rfl⟩
    exact ⟨metadata.bytes, encodeRequestMetadata_eq_ok.mpr ⟨h, rfl⟩,
      encode_eq_ok.mpr ⟨encodable_requestFrame hid h hbody, rfl⟩⟩
  · rintro ⟨bs, hbs, hframe⟩
    obtain ⟨h, rfl⟩ := encodeRequestMetadata_eq_ok.mp hbs
    obtain ⟨⟨-, hbody, hvalid⟩, rfl⟩ := encode_eq_ok.mp hframe
    exact ⟨hvalid.2 (.inl rfl), h, hbody, rfl⟩

end CoroRpc.Protocol
