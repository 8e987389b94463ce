import CoroRpc.Lib.BigEndian
import CoroRpc.Lib.PrefixCode

/-!
# Frames and their encoding

`rpc_src/protocol/frame.h` and the encoder half of `frame.cpp`. A frame is a fixed 32-byte header
followed by two strings whose lengths the header announces.

The source stores integers with `__builtin_bswap` and `memcpy`, which on the little-endian
machines it is built for is big-endian order on the wire; `putU32` and its siblings are that
order directly. `MessageType` is an `enum class : std::uint8_t`, so a value of it is any byte:
the encoder checks it before it trusts it, and so it is a byte here, with the five enumerators as
constants.
-/

namespace CoroRpc.Protocol

open Lib List

/-- `kMagic`, `"RPCR"`. -/
def kMagic : UInt32 := 0x52504352

def kVersion : UInt16 := 1

def kFixedHeaderSize : UInt16 := 32

/-- `enum class MessageType : std::uint8_t`. -/
structure MessageType where
  value : UInt8
  deriving DecidableEq

namespace MessageType

def request : MessageType := ⟨1⟩
def response : MessageType := ⟨2⟩
def cancel : MessageType := ⟨3⟩
def ping : MessageType := ⟨4⟩
def pong : MessageType := ⟨5⟩

end MessageType

structure FrameHeader where
  flags : UInt32 := 0
  messageType : MessageType := .request
  requestId : UInt64 := 0
  deriving DecidableEq

structure Frame where
  header : FrameHeader
  metadata : Bytes
  body : Bytes
  deriving DecidableEq

/-- The limits of a decoder. -/
structure FrameLimits where
  maxMetadataSize : UInt32 := 64 * 1024
  maxBodySize : UInt32 := 16 * 1024 * 1024
  maxBufferSize : UInt64 := 17 * 1024 * 1024
  deriving DecidableEq

/-! ## Fields -/

def putU16 (value : UInt16) : Bytes := toBigEndian 2 value.toNat
def putU32 (value : UInt32) : Bytes := toBigEndian 4 value.toNat
def putU64 (value : UInt64) : Bytes := toBigEndian 8 value.toNat

def getU16 (data : Bytes) : UInt16 := UInt16.ofNat (ofBigEndian (data.take 2))
def getU32 (data : Bytes) : UInt32 := UInt32.ofNat (ofBigEndian (data.take 4))
def getU64 (data : Bytes) : UInt64 := UInt64.ofNat (ofBigEndian (data.take 8))

@[simp] theorem length_putU16 (v : UInt16) : (putU16 v).length = 2 := by simp [putU16]
@[simp] theorem length_putU32 (v : UInt32) : (putU32 v).length = 4 := by simp [putU32]
@[simp] theorem length_putU64 (v : UInt64) : (putU64 v).length = 8 := by simp [putU64]

@[simp] theorem getU16_putU16 (v : UInt16) (r : Bytes) : getU16 (putU16 v ++ r) = v := by
  have hv : v.toNat < 256 ^ 2 := v.toNat_lt
  rw [getU16, take_left' (length_putU16 v), putU16, ofBigEndian_toBigEndian hv]
  exact UInt16.ofNat_toNat

@[simp] theorem getU32_putU32 (v : UInt32) (r : Bytes) : getU32 (putU32 v ++ r) = v := by
  have hv : v.toNat < 256 ^ 4 := v.toNat_lt
  rw [getU32, take_left' (length_putU32 v), putU32, ofBigEndian_toBigEndian hv]
  exact UInt32.ofNat_toNat

@[simp] theorem getU64_putU64 (v : UInt64) (r : Bytes) : getU64 (putU64 v ++ r) = v := by
  have hv : v.toNat < 256 ^ 8 := v.toNat_lt
  rw [getU64, take_left' (length_putU64 v), putU64, ofBigEndian_toBigEndian hv]
  exact UInt64.ofNat_toNat

/-- A field of `k` bytes at `n` is what it reads as, written again. -/
theorem toBigEndian_field {k n v : Nat} {x : Bytes} (h : n + k ≤ x.length)
    (hv : v = ofBigEndian ((x.drop n).take k)) : x.drop n = toBigEndian k v ++ x.drop (n + k) := by
  have hk : ((x.drop n).take k).length = k := by
    rw [length_take, length_drop]
    omega
  have hfield := toBigEndian_ofBigEndian ((x.drop n).take k)
  rw [hk, ← hv] at hfield
  rw [hfield, ← drop_drop, take_append_drop]

theorem ofBigEndian_take_lt (k : Nat) (x : Bytes) : ofBigEndian (x.take k) < 256 ^ k :=
  Nat.lt_of_lt_of_le (ofBigEndian_lt _) (Nat.pow_le_pow_right (by decide) (length_take_le k x))

section
variable {x : Bytes} {n : Nat}

theorem drop_eq_putU16 (h : n + 2 ≤ x.length) :
    x.drop n = putU16 (getU16 (x.drop n)) ++ x.drop (n + 2) :=
  toBigEndian_field h (UInt16.toNat_ofNat_of_lt' (ofBigEndian_take_lt 2 _))

theorem drop_eq_putU32 (h : n + 4 ≤ x.length) :
    x.drop n = putU32 (getU32 (x.drop n)) ++ x.drop (n + 4) :=
  toBigEndian_field h (UInt32.toNat_ofNat_of_lt' (ofBigEndian_take_lt 4 _))

theorem drop_eq_putU64 (h : n + 8 ≤ x.length) :
    x.drop n = putU64 (getU64 (x.drop n)) ++ x.drop (n + 8) :=
  toBigEndian_field h (UInt64.toNat_ofNat_of_lt' (ofBigEndian_take_lt 8 _))

end

/-! ## The header -/

/-- `BuildHeader`: the fixed header, byte by byte. -/
def buildHeader (flags : UInt32) (type : MessageType) (requestId : UInt64)
    (metadataSize bodySize : UInt32) : Bytes :=
  putU32 kMagic ++ (putU16 kVersion ++ (putU16 kFixedHeaderSize ++ (putU32 flags ++
    ([type.value, 0, 0, 0] ++ (putU64 requestId ++ (putU32 metadataSize ++ putU32 bodySize))))))

@[simp] theorem length_buildHeader (flags : UInt32) (type : MessageType) (requestId : UInt64)
    (metadataSize bodySize : UInt32) :
    (buildHeader flags type requestId metadataSize bodySize).length = 32 := by
  simp [buildHeader]

def isValidMessageType (value : UInt8) : Bool :=
  decide (MessageType.request.value ≤ value) && decide (value ≤ MessageType.pong.value)

/-- The two checks on a header that the encoder and the decoder share. -/
def FrameHeader.Valid (h : FrameHeader) : Prop :=
  isValidMessageType h.messageType.value = true ∧
    (h.messageType = .request ∨ h.messageType = .response → h.requestId ≠ 0)

/-- What the fields of a header read back as, whatever follows it. -/
structure HeaderReads (data : Bytes) (flags : UInt32) (type : MessageType) (requestId : UInt64)
    (metadataSize bodySize : UInt32) : Prop where
  magic : getU32 data = kMagic
  version : getU16 (data.drop 4) = kVersion
  headerSize : getU16 (data.drop 6) = kFixedHeaderSize
  flags : getU32 (data.drop 8) = flags
  type : data.getD 12 0 = type.value
  reserved : data.getD 13 0 = 0 ∧ data.getD 14 0 = 0 ∧ data.getD 15 0 = 0
  requestId : getU64 (data.drop 16) = requestId
  metadataSize : getU32 (data.drop 24) = metadataSize
  bodySize : getU32 (data.drop 28) = bodySize

section
variable {flags : UInt32} {type : MessageType} {requestId : UInt64}
  {metadataSize bodySize : UInt32} {data : Bytes}

/-- A header reads back as what it was built from. -/
theorem headerReads_buildHeader (r : Bytes) :
    HeaderReads (buildHeader flags type requestId metadataSize bodySize ++ r) flags type requestId
      metadataSize bodySize := by
  constructor <;>
    simp [buildHeader, drop_append, drop_of_length_le, getD_eq_getElem?_getD, getElem?_append]

/-- Conversely, 32 bytes that read as a header are the header. Each field is put back in front
    of the bytes after it, from the last to the first. -/
theorem HeaderReads.take_eq (h : HeaderReads data flags type requestId metadataSize bodySize)
    (hlen : 32 ≤ data.length) :
    data.take 32 = buildHeader flags type requestId metadataSize bodySize := by
  have h0 := drop_eq_putU32 (x := data) (n := 0) (by omega)
  have h4 := drop_eq_putU16 (x := data) (n := 4) (by omega)
  have h6 := drop_eq_putU16 (x := data) (n := 6) (by omega)
  have h8 := drop_eq_putU32 (x := data) (n := 8) (by omega)
  have h12 : data.drop 12 = [type.value, 0, 0, 0] ++ data.drop 16 := by
    obtain ⟨h13, h14, h15⟩ := h.reserved
    have hbyte : ∀ n, n < 32 → data.drop n = data.getD n 0 :: data.drop (n + 1) := by
      intro n hn
      have hlt : n < data.length := by omega
      rw [drop_eq_getElem_cons hlt, getD_eq_getElem?_getD, getElem?_eq_getElem hlt]
      rfl
    rw [hbyte 12 (by omega), hbyte 13 (by omega), hbyte 14 (by omega), hbyte 15 (by omega),
      h.type, h13, h14, h15]
    rfl
  have h16 := drop_eq_putU64 (x := data) (n := 16) (by omega)
  have h24 := drop_eq_putU32 (x := data) (n := 24) (by omega)
  have h28 := drop_eq_putU32 (x := data) (n := 28) (by omega)
  rw [drop_zero, h.magic] at h0
  rw [h.version] at h4
  rw [h.headerSize] at h6
  rw [h.flags] at h8
  rw [h.requestId] at h16
  rw [h.metadataSize] at h24
  rw [h.bodySize] at h28
  have hall : data = buildHeader flags type requestId metadataSize bodySize ++ data.drop 32 := by
    conv_lhs => rw [h0, h4, h6, h8, h12, h16, h24, h28]
    simp [buildHeader]
  rw [hall]
  exact take_left' (length_buildHeader ..)

end

/-! ## The encoder -/

/-- `FrameEncoder::Encode`. The error text is what `SetError` stores; on an error the output
    string is not touched. -/
def FrameEncoder.encode (frame : Frame) : Except String Bytes :=
  if frame.metadata.length > UInt32.size - 1 ∨ frame.body.length > UInt32.size - 1 then
    .error "frame field exceeds uint32 length"
  else if isValidMessageType frame.header.messageType.value = false then
    .error "invalid frame enum"
  else if (frame.header.messageType = .request ∨ frame.header.messageType = .response) ∧
      frame.header.requestId = 0 then
    .error "request and response frames require a request id"
  else
    .ok (buildHeader frame.header.flags frame.header.messageType frame.header.requestId
      (UInt32.ofNat frame.metadata.length) (UInt32.ofNat frame.body.length) ++
      frame.metadata ++ frame.body)

variable (f : Frame)

def Frame.headerBytes : Bytes :=
  buildHeader f.header.flags f.header.messageType f.header.requestId
    (UInt32.ofNat f.metadata.length) (UInt32.ofNat f.body.length)

def Frame.bytes : Bytes := f.headerBytes ++ f.metadata ++ f.body

/-- The lengths fit their fields, and the header is valid. -/
def Frame.Encodable : Prop :=
  f.metadata.length < 2 ^ 32 ∧ f.body.length < 2 ^ 32 ∧ f.header.Valid

def Frame.Within (limits : FrameLimits) : Prop :=
  f.metadata.length ≤ limits.maxMetadataSize.toNat ∧ f.body.length ≤ limits.maxBodySize.toNat

/-- `Encode` accepts the encodable frames and no others, and writes their bytes. -/
theorem FrameEncoder.encode_eq_ok {f : Frame} {bs : Bytes} :
    FrameEncoder.encode f = .ok bs ↔ f.Encodable ∧ bs = f.bytes := by
  unfold FrameEncoder.encode
  split
  case isTrue hbig =>
    simp only [reduceCtorEq, Frame.Encodable, false_iff, not_and]
    simp only [UInt32.size] at hbig
    omega
  rename_i hsize
  split
  case isTrue htype => simp [Frame.Encodable, FrameHeader.Valid, htype]
  rename_i htype
  split
  case isTrue hid =>
    simp only [reduceCtorEq, Frame.Encodable, FrameHeader.Valid, false_iff, not_and]
    exact fun h => absurd hid.2 (h.2.2.2 hid.1)
  rename_i hid
  have henc : f.Encodable := by
    simp only [UInt32.size] at hsize
    exact ⟨by omega, by omega, by simpa using htype, fun h h0 => hid ⟨h, h0⟩⟩
  simp only [Except.ok.injEq, henc, true_and]
  exact ⟨fun h => h.symm, fun h => h.symm⟩

/-- The frames of a stream, one behind the other. -/
def FrameEncoder.encodeAll : List Frame → Except String Bytes
  | [] => .ok []
  | f :: fs => do
    let bytes ← FrameEncoder.encode f
    let rest ← FrameEncoder.encodeAll fs
    return bytes ++ rest

theorem FrameEncoder.encodeAll_eq_ok {fs : List Frame} {s : Bytes} :
    FrameEncoder.encodeAll fs = .ok s ↔ (∀ f ∈ fs, f.Encodable) ∧ s = fs.flatMap Frame.bytes := by
  induction fs generalizing s with
  | nil => simp [encodeAll, eq_comm]
  | cons f fs ih =>
    constructor
    · intro h
      simp only [encodeAll, bind, Except.bind] at h
      split at h
      · cases h
      rename_i bytes hf
      split at h
      · cases h
      rename_i rest hfs
      obtain ⟨hok, rfl⟩ := encode_eq_ok.mp hf
      obtain ⟨hoks, rfl⟩ := ih.mp hfs
      simp only [pure, Except.pure, Except.ok.injEq] at h
      exact ⟨by simpa using ⟨hok, hoks⟩, by simp [← h]⟩
    · rintro ⟨hok, rfl⟩
      have hf := encode_eq_ok.mpr ⟨hok f (by simp), rfl⟩
      have hfs := ih.mpr ⟨fun g hg => hok g (by simp [hg]), rfl⟩
      simp [encodeAll, hf, hfs, bind, Except.bind, pure, Except.pure]

@[simp] theorem Frame.length_headerBytes : f.headerBytes.length = 32 := by
  simp [Frame.headerBytes]

@[simp] theorem Frame.length_bytes : f.bytes.length = 32 + f.metadata.length + f.body.length := by
  simp [Frame.bytes, Nat.add_assoc]

theorem toNat_ofNat_length {bs : Bytes} (h : bs.length < 2 ^ 32) :
    (UInt32.ofNat bs.length).toNat = bs.length :=
  UInt32.toNat_ofNat_of_lt' h

/-- The same bytes read as one header only. -/
theorem HeaderReads.unique {data : Bytes} {flags flags' : UInt32} {type type' : MessageType}
    {requestId requestId' : UInt64} {m m' b b' : UInt32}
    (h : HeaderReads data flags type requestId m b)
    (h' : HeaderReads data flags' type' requestId' m' b') :
    flags = flags' ∧ type = type' ∧ requestId = requestId' ∧ m = m' ∧ b = b' := by
  have htype : type.value = type'.value := h.type.symm.trans h'.type
  exact ⟨h.flags.symm.trans h'.flags, congrArg MessageType.mk htype,
    h.requestId.symm.trans h'.requestId, h.metadataSize.symm.trans h'.metadataSize,
    h.bodySize.symm.trans h'.bodySize⟩

theorem Frame.headerReads (r : Bytes) :
    HeaderReads (f.headerBytes ++ r) f.header.flags f.header.messageType f.header.requestId
      (UInt32.ofNat f.metadata.length) (UInt32.ofNat f.body.length) :=
  headerReads_buildHeader r

/-- **The encoding is prefix-free**: the header fixes both lengths, and the two strings are then
    the bytes at fixed places. -/
theorem prefixFree_bytes : PrefixFree Frame.Encodable Frame.bytes := by
  intro f g r r' hf hg h
  simp only [Frame.bytes, append_assoc] at h
  have hread := f.headerReads (f.metadata ++ (f.body ++ r))
  rw [h] at hread
  obtain ⟨hflags, htype, hid, hm, hb⟩ := hread.unique (g.headerReads _)
  have hmlen : f.metadata.length = g.metadata.length := by
    rw [← toNat_ofNat_length hf.1, ← toNat_ofNat_length hg.1, hm]
  have hblen : f.body.length = g.body.length := by
    rw [← toNat_ofNat_length hf.2.1, ← toNat_ofNat_length hg.2.1, hb]
  obtain ⟨-, h⟩ := append_inj h (by simp)
  obtain ⟨hmeta, h⟩ := append_inj h hmlen
  obtain ⟨hbody, -⟩ := append_inj h hblen
  obtain ⟨⟨_, _, _⟩, _, _⟩ := f
  simp_all

end CoroRpc.Protocol
