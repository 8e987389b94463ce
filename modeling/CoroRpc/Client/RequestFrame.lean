import CoroRpc.Client.Connection
import CoroRpc.Protocol.Grammar
import CoroRpc.Protocol.MetadataCodec

/-!
# Request frames, from the client's encoder to the server's decoder

`FrameEncoder::EncodeRequest` writes the frame whose metadata string is the envelope of
`rpc_metadata.cpp`. The envelope reads back as the metadata it was written from. The server decodes
it out of a frame that its `FrameDecoder` has handed out, and that decoder has limits of its own: a
metadata string of 64 KiB, a body of 16 MiB. The body never exceeds them, since the client queues
16 MiB at most, header included. The envelope may: each of its four fields may have 64 KiB. What
the server answers is therefore decided by the size of the envelope alone.
-/

namespace CoroRpc.Protocol

open Lib List FrameEncoder RequestMetadata Session

section
variable {metadata : RequestMetadata} {body : Bytes} {requestId : UInt64}

theorem within_requestFrame
    (hout : (requestFrame metadata body requestId).bytes.length ≤ 16 * 1024 * 1024)
    (hsize : metadata.encodedSize ≤ 64 * 1024) :
    (requestFrame metadata body requestId).Within (FrameDecoder.make {}).limits := by
  refine within_make.mpr ⟨?_, ?_⟩
  · rw [requestFrame, length_bytes]
    exact hsize
  · rw [Frame.length_bytes] at hout
    have hle : (requestFrame metadata body requestId).body.length ≤ 16 * 1024 * 1024 := by omega
    exact hle

end

/-! ## What the server's decoder makes of it -/

theorem fits_start_feed {encoded : Bytes}
    (hout : encoded.length ≤ ({} : Client.ConnectionLimits).maxOutboundBytes) :
    (start {}).Fits (.feed encoded) := by
  have hbuffer : ({} : Client.ConnectionLimits).maxOutboundBytes ≤
      (start {}).decoder.limits.maxBufferSize.toNat := by decide
  have hunread : (start {}).decoder.unread.length = 0 := rfl
  unfold Session.Fits
  omega

/-- **A request whose envelope has 64 KiB at most is read back by the server**: the encoding fits
    into the decoder's buffer, and however it is cut into chunks and whatever requests came before
    it on the connection, the decoder fails on no part of it, hands it out as the next frame, and
    the envelope of that frame decodes to the metadata it was written from. -/
theorem request_frame_read {metadata : RequestMetadata} {body encoded : Bytes} {requestId : UInt64}
    (henc : encodeRequest metadata body requestId = .ok encoded)
    (hout : encoded.length ≤ ({} : Client.ConnectionLimits).maxOutboundBytes)
    (hsize : metadata.encodedSize ≤ ({} : FrameLimits).maxMetadataSize.toNat) :
    (start {}).Fits (.feed encoded) ∧
    ∀ before : List Frame, (∀ f ∈ before, f.Encodable ∧ f.Within {}) →
    ∀ σ, Reaches step Session.Fits (start {}) σ →
      (σ.offered <+: before.flatMap Frame.bytes ++ encoded → σ.answer ≠ .protocolError) ∧
      (σ.offered = before.flatMap Frame.bytes ++ encoded → σ.delivered = before →
        ∃ view, σ.decoder.nextView.2 = (.frameReady, some view) ∧
          (view.read σ.decoder.nextView.1.buffer).header.messageType = .request ∧
          (view.read σ.decoder.nextView.1.buffer).header.requestId = requestId ∧
          (view.read σ.decoder.nextView.1.buffer).body = body ∧
          decodeRequestMetadata (view.read σ.decoder.nextView.1.buffer).metadata =
            .ok metadata) := by
  obtain ⟨hid, hmeta, hbody, rfl⟩ := encodeRequest_eq_ok.mp henc
  have hf := encodable_requestFrame hid hmeta hbody
  have hw := within_requestFrame hout hsize
  refine ⟨fits_start_feed hout, ?_⟩
  intro before hbefore σ hreach
  have hi := inv_of_reaches hreach
  have hbefore' : ∀ f ∈ before, f.Encodable ∧ f.Within (FrameDecoder.make {}).limits :=
    fun f hmem => ⟨(hbefore f hmem).1, within_make.mpr (hbefore f hmem).2⟩
  refine ⟨?_, fun hoff hdel => ?_⟩
  · rintro ⟨tail, htail⟩
    have hall : ∀ f ∈ before ++ [requestFrame metadata body requestId],
        f.Encodable ∧ f.Within (FrameDecoder.make {}).limits := by
      intro f hmem
      rcases mem_append.mp hmem with hmem | hmem
      · exact hbefore' f hmem
      · rw [mem_singleton.mp hmem]
        exact ⟨hf, hw⟩
    have hstream : σ.offered ++ tail =
        (before ++ [requestFrame metadata body requestId]).flatMap Frame.bytes := by
      rw [htail, flatMap_append, flatMap_singleton]
    exact answer_ne_protocolError hi hall hstream
  · obtain ⟨view, hview, hread⟩ := view_of_next hi hbefore' hf hw hoff hdel
    refine ⟨view, hview, ?_⟩
    rw [hread]
    exact ⟨rfl, rfl, rfl, decodeRequestMetadata_bytes hmeta⟩

theorem request_frame_read_add :
    ∃ encoded σ view, encodeRequest ⟨[77], [97, 100, 100], [], [], 250⟩ [1, 2] 7 = .ok encoded ∧
      (start {}).step (.feed encoded) = some σ ∧
      σ.decoder.nextView.2 = (.frameReady, some view) ∧
      decodeRequestMetadata (view.read σ.decoder.nextView.1.buffer).metadata =
        .ok ⟨[77], [97, 100, 100], [], [], 250⟩ := by
  have henc : encodeRequest ⟨[77], [97, 100, 100], [], [], 250⟩ [1, 2] 7 =
      .ok (requestFrame ⟨[77], [97, 100, 100], [], [], 250⟩ [1, 2] 7).bytes :=
    encodeRequest_eq_ok.mpr ⟨by decide, ⟨by decide, by decide, by decide, by decide⟩, by decide,
      rfl⟩
  obtain ⟨hfits, hread⟩ := request_frame_read henc (by decide) (by decide)
  obtain ⟨view, hview, -, -, -, hdecode⟩ :=
    (hread [] (by simp) _ (.tail .refl hfits rfl)).2 rfl rfl
  exact ⟨_, _, view, henc, rfl, hview, hdecode⟩

/-- **A request with a larger envelope makes the decoder fail**, whatever the chunking. -/
theorem oversized_envelope_rejected {metadata : RequestMetadata} {body encoded : Bytes}
    {requestId : UInt64} (henc : encodeRequest metadata body requestId = .ok encoded)
    (hsize : ({} : FrameLimits).maxMetadataSize.toNat < metadata.encodedSize) {σ : Session}
    (hreach : Reaches step Session.Fits (start {}) σ) (hoff : σ.offered = encoded) :
    σ.answer = .protocolError := by
  obtain ⟨hid, hmeta, hbody, rfl⟩ := encodeRequest_eq_ok.mp henc
  refine answer_of_not_within (inv_of_reaches hreach)
    (encodable_requestFrame hid hmeta hbody) (fun hw => ?_) hoff
  have hle := (within_make.mp hw).1
  rw [requestFrame, length_bytes] at hle
  omega

/-- Application metadata of 64 KiB is accepted by the encoder; with the 28 bytes of the envelope's
    header it is more than the decoder takes. -/
theorem full_application_metadata_rejected :
    ∃ encoded σ, encodeRequest ⟨[], [], [], List.replicate kMaxFieldSize 0, 0⟩ [] 1 = .ok encoded ∧
      encoded.length ≤ ({} : Client.ConnectionLimits).maxOutboundBytes ∧
      (start {}).Fits (.feed encoded) ∧
      (start {}).step (.feed encoded) = some σ ∧ σ.answer = .protocolError := by
  obtain ⟨application, hdef, happlication⟩ : ∃ application : Bytes,
      List.replicate kMaxFieldSize 0 = application ∧ application.length = kMaxFieldSize :=
    ⟨_, rfl, length_replicate⟩
  rw [hdef]
  have hsize : encodedSize ⟨[], [], [], application, 0⟩ = kHeaderSize + kMaxFieldSize := by
    simp only [encodedSize, length_nil, happlication, Nat.add_zero]
  have henc : encodeRequest ⟨[], [], [], application, 0⟩ [] 1 =
      .ok (requestFrame ⟨[], [], [], application, 0⟩ [] 1).bytes :=
    encodeRequest_eq_ok.mpr ⟨by decide, ⟨Nat.zero_le _, Nat.zero_le _, Nat.zero_le _,
      Nat.le_of_eq happlication⟩, Nat.two_pow_pos 32, rfl⟩
  have hlen : (requestFrame ⟨[], [], [], application, 0⟩ [] 1).bytes.length ≤
      ({} : Client.ConnectionLimits).maxOutboundBytes := by
    rw [Frame.length_bytes, requestFrame, length_bytes, hsize]
    change 32 + (kHeaderSize + kMaxFieldSize) + 0 ≤ 16 * 1024 * 1024
    decide
  have hfits := fits_start_feed hlen
  refine ⟨_, _, henc, hlen, hfits, rfl, ?_⟩
  refine oversized_envelope_rejected henc ?_ (.tail .refl hfits rfl) (nil_append _)
  rw [hsize]
  decide

end CoroRpc.Protocol
