import CoroRpc.Protocol.Frame

/-!
# `FrameDecoder`

The decoder half of `rpc_src/protocol/frame.cpp`, function by function. The receive buffer is the
list `buffer`, whose length is `buffer_capacity_`; the offsets into it are the source's own.

Two points of the translation matter. `std::size_t` arithmetic wraps, so the subtractions the
source relies on are written with `subSize` and not with truncated subtraction: whether they
underflow is then a statement about the model. And a `memcpy` is a splice of the list at an
offset (`writeAt`), which keeps the length exactly when the copy stays inside the buffer.
-/

namespace CoroRpc.Protocol

open Lib

/-! ## `std::size_t` and memory -/

/-- `a + b` in `std::size_t`: reduced modulo `2 ^ 64`, once, the operands being sizes. -/
def addSize (a b : Nat) : Nat := if 2 ^ 64 ≤ a + b then a + b - 2 ^ 64 else a + b

/-- `a - b` in `std::size_t`: it wraps where `b` is the larger. -/
def subSize (a b : Nat) : Nat := if b ≤ a then a - b else a + (2 ^ 64 - b)

theorem addSize_eq {a b : Nat} (h : a + b < 2 ^ 64) : addSize a b = a + b :=
  if_neg (by omega)

theorem subSize_eq {a b : Nat} (h : b ≤ a) : subSize a b = a - b := if_pos h

/-- `memcpy` of `bs` to an offset of a buffer. -/
def writeAt (buffer : Bytes) (offset : Nat) (bs : Bytes) : Bytes :=
  buffer.take offset ++ bs ++ buffer.drop (offset + bs.length)

/-! ## The decoder -/

inductive DecodeStatus where
  | needMore
  | frameReady
  | protocolError
  deriving DecidableEq

inductive State where
  | readFixedHeader
  | readMetadata
  | failed
  deriving DecidableEq

/-- A `std::string_view` into the receive buffer. -/
structure Slice where
  offset : Nat
  size : Nat
  deriving DecidableEq

def Slice.read (s : Slice) (buffer : Bytes) : Bytes := (buffer.drop s.offset).take s.size

structure FrameView where
  header : FrameHeader
  metadata : Slice
  body : Slice
  deriving DecidableEq

def FrameView.read (v : FrameView) (buffer : Bytes) : Frame :=
  ⟨v.header, v.metadata.read buffer, v.body.read buffer⟩

structure FrameDecoder where
  limits : FrameLimits
  state : State := .readFixedHeader
  buffer : Bytes := []
  bufferSize : Nat := 0
  preparedSize : Nat := 0
  readOffset : Nat := 0
  pendingHeader : FrameHeader := {}
  pendingMetadataSize : UInt32 := 0
  pendingBodySize : UInt32 := 0
  error : String := ""
  deriving DecidableEq

/-- The constructor: the buffer limit is raised so that a maximal frame fits. -/
def FrameDecoder.make (limits : FrameLimits) : FrameDecoder :=
  let minBuffer : UInt64 :=
    kFixedHeaderSize.toUInt64 + limits.maxMetadataSize.toUInt64 + limits.maxBodySize.toUInt64
  { limits := if limits.maxBufferSize < minBuffer then { limits with maxBufferSize := minBuffer }
              else limits }

namespace FrameDecoder

variable (d : FrameDecoder)

def fail (message : String) : FrameDecoder :=
  { d with state := .failed, error := message }

def readableBytes : Nat := subSize d.bufferSize d.readOffset

def compactBuffer : FrameDecoder :=
  if d.readOffset = 0 then d
  else
    let readable := subSize d.bufferSize d.readOffset
    { d with
      buffer := writeAt d.buffer 0 ((d.buffer.drop d.readOffset).take readable)
      bufferSize := readable
      readOffset := 0 }

def ensureWritable (size : Nat) : FrameDecoder × Bool :=
  if size > subSize d.limits.maxBufferSize.toNat d.bufferSize then
    (d.fail "decoder buffer limit exceeded", false)
  else
    let required := addSize d.bufferSize size
    if required ≤ d.buffer.length then (d, true)
    else
      let nextCapacity := max (16 * 1024) (addSize d.buffer.length d.buffer.length)
      let nextCapacity := max nextCapacity required
      let nextCapacity := min nextCapacity d.limits.maxBufferSize.toNat
      ({ d with
        buffer := writeAt (List.replicate nextCapacity 0) 0 (d.buffer.take d.bufferSize) }, true)

/-- The arguments of `Feed`: a null pointer, or `size` bytes. -/
inductive Input where
  | null (size : Nat)
  | bytes (bs : Bytes)
  deriving DecidableEq

def Input.size : Input → Nat
  | .null n => n
  | .bytes bs => bs.length

/-- Make room for `size` more bytes: compact if they do not fit behind the data, then grow. -/
def makeRoom (size : Nat) : FrameDecoder × Bool :=
  (if size > subSize d.buffer.length d.bufferSize then d.compactBuffer else d).ensureWritable size

def feed (data : Input) : FrameDecoder × DecodeStatus :=
  if d.state = .failed then (d, .protocolError)
  else if data.size = 0 then (d, .needMore)
  else
    match data with
    | .null _ => (d.fail "null frame input", .protocolError)
    | .bytes input =>
      match d.makeRoom input.length with
      | (d, false) => (d, .protocolError)
      | (d, true) =>
        ({ d with
          buffer := writeAt d.buffer d.bufferSize input
          bufferSize := addSize d.bufferSize input.length }, .needMore)

/-- `PrepareWritable`; the pointer is an offset into the buffer, `none` is `nullptr`. -/
def prepareWritable (size : Nat) : FrameDecoder × Option Nat :=
  if d.state = .failed ∨ size = 0 ∨ d.preparedSize ≠ 0 then (d, none)
  else
    match d.makeRoom size with
    | (d, false) => (d, none)
    | (d, true) => ({ d with preparedSize := size }, some d.bufferSize)

def commitWritable (size : Nat) : FrameDecoder × DecodeStatus :=
  if d.preparedSize = 0 ∨ size > d.preparedSize then
    ({ d.fail "invalid decoder write commit" with preparedSize := 0 }, .protocolError)
  else
    ({ d with bufferSize := addSize d.bufferSize size, preparedSize := 0 }, .needMore)

def validateHeader (metadataSize bodySize : UInt32) : FrameDecoder × Bool :=
  if (d.pendingHeader.messageType = .request ∨ d.pendingHeader.messageType = .response) ∧
      d.pendingHeader.requestId = 0 then
    (d.fail "request and response frames require a request id", false)
  else if metadataSize > d.limits.maxMetadataSize ∨ bodySize > d.limits.maxBodySize then
    (d.fail "frame field exceeds configured limit", false)
  else (d, true)

def decodeHeader : FrameDecoder × Bool :=
  let data := d.buffer.drop d.readOffset
  if getU32 data ≠ kMagic then (d.fail "invalid frame magic", false)
  else if getU16 (data.drop 4) ≠ kVersion then (d.fail "unsupported frame version", false)
  else if getU16 (data.drop 6) ≠ kFixedHeaderSize then
    (d.fail "unsupported frame header size", false)
  else if isValidMessageType (data.getD 12 0) = false ∨ data.getD 13 0 ≠ 0 ∨
      data.getD 14 0 ≠ 0 ∨ data.getD 15 0 ≠ 0 then
    (d.fail "invalid frame header enum or reserved field", false)
  else
    let d := { d with
      pendingHeader := ⟨getU32 (data.drop 8), ⟨data.getD 12 0⟩, getU64 (data.drop 16)⟩
      pendingMetadataSize := getU32 (data.drop 24)
      pendingBodySize := getU32 (data.drop 28) }
    match d.validateHeader d.pendingMetadataSize d.pendingBodySize with
    | (d, false) => (d, false)
    | (d, true) =>
      ({ d with
        readOffset := addSize d.readOffset kFixedHeaderSize.toNat
        state := .readMetadata }, true)

/-- The `READ_METADATA` case of the loop in `NextView`. -/
def readMetadata : FrameDecoder × DecodeStatus × Option FrameView :=
  let metadataSize := d.pendingMetadataSize.toNat
  let bodySize := d.pendingBodySize.toNat
  if d.readableBytes < addSize metadataSize bodySize then (d, .needMore, none)
  else
    let bodyOffset := addSize d.readOffset metadataSize
    ({ d with readOffset := addSize bodyOffset bodySize, state := .readFixedHeader }, .frameReady,
      some ⟨d.pendingHeader, ⟨d.readOffset, metadataSize⟩, ⟨bodyOffset, bodySize⟩⟩)

/-- `NextView`. A header that decodes leaves the state at `READ_METADATA`, so the loop of the
    source comes around exactly once more. -/
def nextView : FrameDecoder × DecodeStatus × Option FrameView :=
  match d.state with
  | .failed => (d, .protocolError, none)
  | .readMetadata => d.readMetadata
  | .readFixedHeader =>
    if d.readableBytes < kFixedHeaderSize.toNat then (d, .needMore, none)
    else
      match d.decodeHeader with
      | (d, false) => (d, .protocolError, none)
      | (d, true) => d.readMetadata

/-- `Next`: the view, copied out of the buffer. -/
def next : FrameDecoder × DecodeStatus × Option Frame :=
  match d.nextView with
  | (d, status, view) => (d, status, view.map (·.read d.buffer))

def reset : FrameDecoder :=
  { d with
    state := .readFixedHeader
    bufferSize := 0
    readOffset := 0
    preparedSize := 0
    pendingHeader := {}
    pendingMetadataSize := 0
    pendingBodySize := 0
    error := "" }

/-- Every public operation, and the caller's write through a pointer it was given. -/
inductive Op where
  | feed (data : Input)
  | prepareWritable (size : Nat)
  | write (offset : Nat) (bs : Bytes)
  | commitWritable (size : Nat)
  | next
  | nextView
  | reset
  deriving DecidableEq

inductive Reply where
  | status (s : DecodeStatus)
  | pointer (p : Option Nat)
  | none
  deriving DecidableEq

def apply : Op → FrameDecoder × Reply
  | .feed data => let (d, s) := d.feed data; (d, .status s)
  | .prepareWritable size => let (d, p) := d.prepareWritable size; (d, .pointer p)
  | .write offset bs => ({ d with buffer := writeAt d.buffer offset bs }, .none)
  | .commitWritable size => let (d, s) := d.commitWritable size; (d, .status s)
  | .next => let (d, s, _) := d.next; (d, .status s)
  | .nextView => let (d, s, _) := d.nextView; (d, .status s)
  | .reset => (d.reset, .none)

/-- The reply of a decoder that has failed: `PROTOCOL_ERROR`, or no room to write. -/
def Reply.Fails : Reply → Prop
  | .status s => s = .protocolError
  | .pointer p => p = Option.none
  | .none => True

end FrameDecoder

end CoroRpc.Protocol
