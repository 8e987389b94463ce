import CoroRpc.Protocol.Frame

/-!
# Request metadata

`rpc_src/protocol/rpc_metadata.cpp`: the envelope that every `REQUEST` frame carries in its
metadata string. A 28-byte header (magic, relative timeout, four lengths) is followed by the four
strings. The decoder's views are copied out here; nothing in the server looks at where in the
frame they lie.
-/

namespace CoroRpc.Protocol

open Lib

structure RequestMetadata where
  service : Bytes
  method : Bytes
  idempotencyKey : Bytes
  applicationMetadata : Bytes
  timeoutMs : UInt64 := 0
  deriving DecidableEq

/-- `{'R', 'M', '1', '\0'}`. -/
def kMetadataMagic : Bytes := [0x52, 0x4d, 0x31, 0]

def kHeaderSize : Nat := 4 + 8 + 4 * 4

def kMaxFieldSize : Nat := 64 * 1024

def checkField (value : Bytes) : Except String Unit :=
  if value.length ≤ kMaxFieldSize then .ok () else .error "metadata field exceeds limit"

variable (metadata : RequestMetadata)

def requestMetadataEncodedSize : Except String Nat := do
  checkField metadata.service
  checkField metadata.method
  checkField metadata.idempotencyKey
  checkField metadata.applicationMetadata
  let total := kHeaderSize + metadata.service.length + metadata.method.length +
    metadata.idempotencyKey.length + metadata.applicationMetadata.length
  if total > UInt32.size - 1 then throw "metadata exceeds protocol limit"
  return total

/-- `AppendRequestMetadata`, which makes the size check itself. -/
def appendRequestMetadata (output : Bytes) : Except String Bytes := do
  let _ ← requestMetadataEncodedSize metadata
  let header := kMetadataMagic ++ putU64 metadata.timeoutMs ++
    putU32 (UInt32.ofNat metadata.service.length) ++
    putU32 (UInt32.ofNat metadata.method.length) ++
    putU32 (UInt32.ofNat metadata.idempotencyKey.length) ++
    putU32 (UInt32.ofNat metadata.applicationMetadata.length)
  return output ++ header ++ metadata.service ++ metadata.method ++ metadata.idempotencyKey ++
    metadata.applicationMetadata

/-- `EncodeRequestMetadata`: the size check, then `AppendRequestMetadata` to an empty string. -/
def encodeRequestMetadata : Except String Bytes := do
  let _ ← requestMetadataEncodedSize metadata
  appendRequestMetadata metadata []

/-- `FrameEncoder::EncodeRequest`. The header is written before the metadata, with the size that
    `RequestMetadataEncodedSize` predicts. -/
def FrameEncoder.encodeRequest (body : Bytes) (requestId : UInt64) :
    Except String Bytes :=
  if requestId = 0 then .error "request frames require a request id"
  else
    match requestMetadataEncodedSize metadata with
    | .error e =>
      .error (if body.length > UInt32.size - 1 then "frame field exceeds uint32 length" else e)
    | .ok metadataSize =>
      if body.length > UInt32.size - 1 then .error "frame field exceeds uint32 length"
      else do
        let header := buildHeader 0 .request requestId (UInt32.ofNat metadataSize)
          (UInt32.ofNat body.length)
        let output ← appendRequestMetadata metadata header
        return output ++ body

/-- `DecodeRequestMetadataView`: the output parameter afterwards, and the error if it fails. Bytes
    behind the last field are not looked at. -/
def decodeRequestMetadataView (input : Bytes) (metadata : RequestMetadata) :
    RequestMetadata × Except String Unit :=
  if input.length < kHeaderSize ∨ input.take 4 ≠ kMetadataMagic then
    (metadata, .error "missing RPC metadata envelope")
  else
    let timeoutMs := getU64 (input.drop 4)
    let serviceSize := (getU32 (input.drop 12)).toNat
    let methodSize := (getU32 (input.drop 16)).toNat
    let keySize := (getU32 (input.drop 20)).toNat
    let applicationSize := (getU32 (input.drop 24)).toNat
    let fieldsSize := serviceSize + methodSize + keySize + applicationSize
    if serviceSize > kMaxFieldSize ∨ methodSize > kMaxFieldSize ∨ keySize > kMaxFieldSize ∨
        applicationSize > kMaxFieldSize ∨ fieldsSize > input.length - kHeaderSize then
      (metadata, .error "invalid RPC metadata envelope")
    else
      let offset := kHeaderSize
      let metadata := { metadata with service := (input.drop offset).take serviceSize }
      let offset := offset + serviceSize
      let metadata := { metadata with method := (input.drop offset).take methodSize }
      let offset := offset + methodSize
      let metadata := { metadata with idempotencyKey := (input.drop offset).take keySize }
      let offset := offset + keySize
      let metadata :=
        { metadata with applicationMetadata := (input.drop offset).take applicationSize }
      ({ metadata with timeoutMs := timeoutMs }, .ok ())

/-- What a caller has that passes a fresh view and goes on only if the call succeeds. -/
def decodeRequestMetadata (input : Bytes) : Except String RequestMetadata :=
  match decodeRequestMetadataView input ⟨[], [], [], [], 0⟩ with
  | (metadata, .ok ()) => .ok metadata
  | (_, .error e) => .error e

end CoroRpc.Protocol
