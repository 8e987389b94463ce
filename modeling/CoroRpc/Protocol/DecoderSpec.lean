import CoroRpc.Protocol.Decoder

/-!
# What each operation of the decoder does to the unread bytes

Everything the decoder has received and not yet consumed is `unread`: the bytes between
`read_offset_` and `buffer_size_`. Compaction, growth and reuse of the buffer are invisible
there, and each public operation is a simple function of it: a chunk is appended, a header or a
frame is taken off the front. This file proves one lemma of that kind per operation, for a
decoder whose offsets are in order (`Sound`); the results about streams use nothing else.
-/

namespace CoroRpc.Protocol
namespace FrameDecoder

open Lib List

/-- The bytes received and not yet consumed. -/
def unread (d : FrameDecoder) : Bytes := (d.buffer.take d.bufferSize).drop d.readOffset

/-- The offsets are in order and the buffer is within its limit. -/
structure Sound (d : FrameDecoder) : Prop where
  read : d.readOffset ≤ d.bufferSize
  room : d.bufferSize + d.preparedSize ≤ d.buffer.length
  limit : d.buffer.length ≤ d.limits.maxBufferSize.toNat

/-- Two decoders at the same place of the frame grammar, with the same limits. -/
structure SamePlace (d d' : FrameDecoder) : Prop where
  limits : d'.limits = d.limits
  state : d'.state = d.state
  header : d'.pendingHeader = d.pendingHeader
  metadataSize : d'.pendingMetadataSize = d.pendingMetadataSize
  bodySize : d'.pendingBodySize = d.pendingBodySize
  prepared : d'.preparedSize = d.preparedSize

variable {d d' : FrameDecoder}

theorem SamePlace.refl (d : FrameDecoder) : SamePlace d d := ⟨rfl, rfl, rfl, rfl, rfl, rfl⟩

theorem SamePlace.trans {d'' : FrameDecoder} (h : SamePlace d d') (h' : SamePlace d' d'') :
    SamePlace d d'' :=
  ⟨h'.limits.trans h.limits, h'.state.trans h.state, h'.header.trans h.header,
    h'.metadataSize.trans h.metadataSize, h'.bodySize.trans h.bodySize,
    h'.prepared.trans h.prepared⟩

theorem length_unread (h : Sound d) : d.unread.length = d.bufferSize - d.readOffset := by
  have := h.room
  simp only [unread, length_drop, length_take]
  omega

theorem Sound.lt_size (h : Sound d) : d.buffer.length < 2 ^ 64 :=
  Nat.lt_of_le_of_lt h.limit d.limits.maxBufferSize.toNat_lt

theorem readableBytes_eq (h : Sound d) : d.readableBytes = d.unread.length := by
  rw [readableBytes, subSize_eq h.read, length_unread h]

/-- The bytes from `read_offset_` on are the unread ones and then the free part of the buffer. -/
theorem drop_readOffset (h : Sound d) :
    d.buffer.drop d.readOffset = d.unread ++ d.buffer.drop d.bufferSize := by
  have := h.room
  have := h.read
  conv_lhs => rw [← take_append_drop d.bufferSize d.buffer]
  rw [drop_append_of_le_length (by simp; omega), unread]

/-! ## Writing -/

theorem length_writeAt {buffer bs : Bytes} {offset : Nat} (h : offset + bs.length ≤ buffer.length) :
    (writeAt buffer offset bs).length = buffer.length := by
  simp only [writeAt, length_append, length_take, length_drop]
  omega

/-- A copy behind the first `offset` bytes extends what is read up to its end. -/
theorem take_writeAt (buffer bs : Bytes) {offset : Nat} (h : offset ≤ buffer.length) :
    (writeAt buffer offset bs).take (offset + bs.length) = buffer.take offset ++ bs := by
  rw [writeAt, take_left']
  simp [h]

theorem compactBuffer_spec (h : Sound d) (hp : d.preparedSize = 0) :
    Sound d.compactBuffer ∧ SamePlace d d.compactBuffer ∧ d.compactBuffer.unread = d.unread ∧
      d.compactBuffer.bufferSize = d.unread.length := by
  have hlen := length_unread h
  unfold compactBuffer
  split
  case isTrue h0 => exact ⟨h, .refl d, rfl, by omega⟩
  case isFalse h0 =>
    have := h.room
    have hsub : subSize d.bufferSize d.readOffset = d.unread.length := readableBytes_eq h
    have hmove : (d.buffer.drop d.readOffset).take d.unread.length = d.unread := by
      rw [drop_readOffset h, take_left]
    simp only [hsub, hmove]
    have hw : (writeAt d.buffer 0 d.unread).length = d.buffer.length :=
      length_writeAt (by omega)
    refine ⟨⟨by simp, by simp only [hw]; omega, by simp only [hw]; exact h.limit⟩,
      ⟨rfl, rfl, rfl, rfl, rfl, rfl⟩, ?_, trivial⟩
    have := take_writeAt d.buffer d.unread (Nat.zero_le _)
    simpa [unread] using this

theorem ensureWritable_spec (size : Nat) (h : Sound d) (hp : d.preparedSize = 0)
    (hfit : d.bufferSize + size ≤ d.limits.maxBufferSize.toNat) :
    ∃ d', d.ensureWritable size = (d', true) ∧ Sound d' ∧ SamePlace d d' ∧
      d'.unread = d.unread ∧ d'.bufferSize = d.bufferSize ∧
      d.bufferSize + size ≤ d'.buffer.length := by
  have hlt := d.limits.maxBufferSize.toNat_lt
  have hroom := h.room
  have hsub := subSize_eq (a := d.limits.maxBufferSize.toNat) (b := d.bufferSize) (by omega)
  have hadd : addSize d.bufferSize size = d.bufferSize + size := addSize_eq (by omega)
  unfold ensureWritable
  rw [if_neg (by omega)]
  simp only [hadd]
  split
  case isTrue hle => exact ⟨d, rfl, h, .refl d, rfl, rfl, hle⟩
  case isFalse hgt =>
    refine ⟨_, rfl, ?_⟩
    generalize hcap : min (max (max (16 * 1024) (addSize d.buffer.length d.buffer.length))
      (d.bufferSize + size)) d.limits.maxBufferSize.toNat = capacity
    have htake : (d.buffer.take d.bufferSize).length = d.bufferSize := by
      rw [length_take]
      omega
    have hlen : (writeAt (List.replicate capacity 0) 0 (d.buffer.take d.bufferSize)).length =
        capacity := by
      rw [length_writeAt] <;> simp only [length_replicate]
      omega
    refine ⟨⟨h.read, ?_, ?_⟩, ⟨rfl, rfl, rfl, rfl, rfl, rfl⟩, ?_, rfl, ?_⟩
    · simp only [hlen]; omega
    · simp only [hlen]; omega
    · have hcopy := take_writeAt (List.replicate capacity (0 : UInt8)) (d.buffer.take d.bufferSize)
        (Nat.zero_le _)
      rw [htake, Nat.zero_add] at hcopy
      simp only [unread, hcopy, take_zero, nil_append]
    · simp only [hlen]; omega

/-- A chunk that the limit has room for is never refused, and making room for it moves no byte
    of the unread data out of order. -/
theorem makeRoom_spec {size : Nat} (h : Sound d) (hp : d.preparedSize = 0)
    (hfit : d.unread.length + size ≤ d.limits.maxBufferSize.toNat) :
    ∃ d', d.makeRoom size = (d', true) ∧ Sound d' ∧ SamePlace d d' ∧ d'.unread = d.unread ∧
      d'.bufferSize + size ≤ d'.buffer.length := by
  have hroom := h.room
  have hlimit := h.limit
  have hsub := subSize_eq (a := d.buffer.length) (b := d.bufferSize) (by omega)
  unfold makeRoom
  split
  case isTrue =>
    obtain ⟨hs, hsame, hunread, hsize⟩ := compactBuffer_spec h hp
    obtain ⟨d', he, hs', hsame', hunread', hsize', hcap⟩ :=
      ensureWritable_spec size hs (hsame.prepared.trans hp)
        (by rw [hsize, hsame.limits]; exact hfit)
    exact ⟨d', he, hs', hsame.trans hsame', hunread'.trans hunread, by omega⟩
  case isFalse =>
    obtain ⟨d', he, hs', hsame', hunread', hsize', hcap⟩ :=
      ensureWritable_spec size h hp (by omega)
    exact ⟨d', he, hs', hsame', hunread', by omega⟩

theorem append_spec {bs : Bytes} {p : Nat} (h : Sound d) (hp : p = 0)
    (hroom : d.bufferSize + bs.length ≤ d.buffer.length) :
    Sound { d with buffer := writeAt d.buffer d.bufferSize bs, preparedSize := p,
                   bufferSize := addSize d.bufferSize bs.length } ∧
      unread { d with buffer := writeAt d.buffer d.bufferSize bs, preparedSize := p,
                      bufferSize := addSize d.bufferSize bs.length } = d.unread ++ bs := by
  have hlt := h.lt_size
  have hread := h.read
  have hadd : addSize d.bufferSize bs.length = d.bufferSize + bs.length := addSize_eq (by omega)
  have hlen := length_writeAt hroom
  refine ⟨⟨by simp only [hadd]; omega, by simp only [hadd, hlen, hp]; omega,
    by simp only [hlen]; exact h.limit⟩, ?_⟩
  simp only [unread, hadd, take_writeAt d.buffer bs (Nat.le_of_add_right_le hroom)]
  rw [drop_append_of_le_length (by rw [length_take]; omega)]

/-- **`Feed` appends the chunk**, unless the decoder has failed. -/
theorem feed_spec {chunk : Bytes} (h : Sound d) (hp : d.preparedSize = 0)
    (hstate : d.state ≠ .failed)
    (hfit : d.unread.length + chunk.length ≤ d.limits.maxBufferSize.toNat) :
    ∃ d', d.feed (.bytes chunk) = (d', .needMore) ∧ Sound d' ∧ SamePlace d d' ∧
      d'.unread = d.unread ++ chunk := by
  unfold feed
  rw [if_neg hstate]
  by_cases h0 : (Input.bytes chunk).size = 0
  · rw [if_pos h0]
    obtain rfl : chunk = [] := eq_nil_of_length_eq_zero h0
    exact ⟨d, rfl, h, .refl d, by simp⟩
  · rw [if_neg h0]
    obtain ⟨d', hroom, hs, hsame, hunread, hcap⟩ := makeRoom_spec h hp hfit
    simp only [hroom]
    obtain ⟨hs', hunread'⟩ := append_spec hs (hsame.prepared.trans hp) hcap
    refine ⟨_, rfl, hs', ⟨hsame.1, hsame.2, hsame.3, hsame.4, hsame.5, hsame.6⟩, ?_⟩
    rw [← hunread]
    exact hunread'

/-- **`PrepareWritable`, a write of no more than was prepared, and `CommitWritable` append the
    bytes written.** -/
theorem prepare_commit_spec {chunk : Bytes} {room : Nat} (h : Sound d) (hp : d.preparedSize = 0)
    (hstate : d.state ≠ .failed) (hpos : room ≠ 0) (hle : chunk.length ≤ room)
    (hfit : d.unread.length + room ≤ d.limits.maxBufferSize.toNat) :
    ∃ d₁ pointer d₂, d.prepareWritable room = (d₁, some pointer) ∧
      commitWritable { d₁ with buffer := writeAt d₁.buffer pointer chunk } chunk.length =
        (d₂, .needMore) ∧
      Sound d₂ ∧ SamePlace d d₂ ∧ d₂.unread = d.unread ++ chunk := by
  obtain ⟨d', hroom, hs, hsame, hunread, hcap⟩ := makeRoom_spec h hp hfit
  refine ⟨{ d' with preparedSize := room }, d'.bufferSize,
    { d' with buffer := writeAt d'.buffer d'.bufferSize chunk, preparedSize := 0,
              bufferSize := addSize d'.bufferSize chunk.length }, ?_, ?_, ?_⟩
  · rw [prepareWritable, if_neg (by simp [hstate, hpos, hp])]
    simp only [hroom]
  · rw [commitWritable, if_neg (by simp only; omega)]
  · have hchunk : d'.bufferSize + chunk.length ≤ d'.buffer.length := by omega
    obtain ⟨hs', hunread'⟩ := append_spec (p := 0) hs rfl hchunk
    exact ⟨hs', ⟨hsame.1, hsame.2, hsame.3, hsame.4, hsame.5, hp.symm⟩, by rw [hunread', hunread]⟩

/-! ## Reading a header -/

/-- The decoder after a header has been accepted. -/
def withHeader (d : FrameDecoder) (header : FrameHeader) (metadataSize bodySize : UInt32) :
    FrameDecoder :=
  { d with
    pendingHeader := header
    pendingMetadataSize := metadataSize
    pendingBodySize := bodySize
    readOffset := addSize d.readOffset kFixedHeaderSize.toNat
    state := .readMetadata }

/-- The headers that the decoder accepts: exactly those the encoder writes for frames within the
    limits. -/
structure Accepts (limits : FrameLimits) (data : Bytes) (header : FrameHeader)
    (metadataSize bodySize : UInt32) : Prop where
  reads : HeaderReads data header.flags header.messageType header.requestId metadataSize bodySize
  valid : header.Valid
  metadataLimit : metadataSize ≤ limits.maxMetadataSize
  bodyLimit : bodySize ≤ limits.maxBodySize

theorem decodeHeader_of_accepts {header : FrameHeader} {m b : UInt32}
    (h : Accepts d.limits (d.buffer.drop d.readOffset) header m b) :
    d.decodeHeader = (d.withHeader header m b, true) := by
  obtain ⟨hr, ⟨htype, hid⟩, hm, hb⟩ := h
  have hid' : ¬((header.messageType = .request ∨ header.messageType = .response) ∧
      header.requestId = 0) := fun h => hid h.1 h.2
  have hlim : ¬(m > d.limits.maxMetadataSize ∨ b > d.limits.maxBodySize) := by
    rintro (h | h)
    · exact absurd hm (UInt32.not_le.mpr h)
    · exact absurd hb (UInt32.not_le.mpr h)
  unfold decodeHeader
  simp only [hr.magic, hr.version, hr.headerSize, hr.type, hr.reserved.1, hr.reserved.2.1,
    hr.reserved.2.2, hr.flags, hr.requestId, hr.metadataSize, hr.bodySize, validateHeader, hid',
    hlim, htype, ne_eq, not_true_eq_false, reduceCtorEq, or_self, if_false, withHeader]

/-- A rejected header: the decoder has failed, and the buffer is as it was. -/
structure Rejected (d d' : FrameDecoder) : Prop where
  state : d'.state = .failed
  limits : d'.limits = d.limits
  prepared : d'.preparedSize = d.preparedSize
  buffer : d'.buffer = d.buffer
  bufferSize : d'.bufferSize = d.bufferSize
  readOffset : d'.readOffset = d.readOffset

theorem rejected_fail (d : FrameDecoder) (message : String) : Rejected d (d.fail message) :=
  ⟨rfl, rfl, rfl, rfl, rfl, rfl⟩

/-- Inversion of `DecodeHeader`: the checks are passed in order, or the first one that is not
    rejects. -/
theorem decodeHeader_cases (d : FrameDecoder) :
    (∃ header m b, Accepts d.limits (d.buffer.drop d.readOffset) header m b) ∨
      ∃ d', d.decodeHeader = (d', false) ∧ Rejected d d' := by
  unfold decodeHeader validateHeader
  simp only
  split
  · exact .inr ⟨_, rfl, rejected_fail ..⟩
  rename_i hmagic
  split
  · exact .inr ⟨_, rfl, rejected_fail ..⟩
  rename_i hversion
  split
  · exact .inr ⟨_, rfl, rejected_fail ..⟩
  rename_i hsize
  split
  · exact .inr ⟨_, rfl, rejected_fail ..⟩
  rename_i henum
  simp only [ne_eq, not_or, not_not, Bool.not_eq_false] at hmagic hversion hsize henum
  obtain ⟨htype, h13, h14, h15⟩ := henum
  -- from here on the pending fields are already overwritten, also where validation fails
  by_cases hid : ((⟨(d.buffer.drop d.readOffset).getD 12 0⟩ : MessageType) = .request ∨
      (⟨(d.buffer.drop d.readOffset).getD 12 0⟩ : MessageType) = .response) ∧
      getU64 ((d.buffer.drop d.readOffset).drop 16) = 0
  · rw [if_pos hid]
    exact .inr ⟨_, rfl, rfl, rfl, rfl, rfl, rfl, rfl⟩
  rw [if_neg hid]
  by_cases hlim : getU32 ((d.buffer.drop d.readOffset).drop 24) > d.limits.maxMetadataSize ∨
      getU32 ((d.buffer.drop d.readOffset).drop 28) > d.limits.maxBodySize
  · rw [if_pos hlim]
    exact .inr ⟨_, rfl, rfl, rfl, rfl, rfl, rfl, rfl⟩
  simp only [not_or, UInt32.not_lt] at hlim
  exact .inl ⟨⟨_, _, _⟩, _, _, ⟨hmagic, hversion, hsize, rfl, rfl, ⟨h13, h14, h15⟩, rfl, rfl, rfl⟩,
    ⟨htype, fun h h0 => hid ⟨h, h0⟩⟩, hlim.1, hlim.2⟩

/-! ## Reading a frame -/

theorem read_slice (offset size : Nat) (h : Sound d) (hle : offset + size ≤ d.unread.length) :
    Slice.read ⟨d.readOffset + offset, size⟩ d.buffer = (d.unread.drop offset).take size := by
  rw [Slice.read, ← drop_drop, drop_readOffset h,
    drop_append_of_le_length (by omega), take_append_of_le_length (by simp; omega)]

theorem advance_spec {n : Nat} (state : State) (h : Sound d) (hle : n ≤ d.unread.length) :
    Sound { d with readOffset := addSize d.readOffset n, state := state } ∧
      unread { d with readOffset := addSize d.readOffset n, state := state } = d.unread.drop n := by
  have hlen := length_unread h
  have hroom := h.room
  have hlt := h.lt_size
  have hread := h.read
  have hadd : addSize d.readOffset n = d.readOffset + n := addSize_eq (by omega)
  refine ⟨⟨by simp only [hadd]; omega, h.room, h.limit⟩, ?_⟩
  simp only [unread, hadd, drop_drop]

/-- The `READ_METADATA` step: it waits for both strings, and then delivers them as the next
    bytes of the unread data. -/
theorem readMetadata_spec (h : Sound d) :
    (d.unread.length < d.pendingMetadataSize.toNat + d.pendingBodySize.toNat ∧
        d.readMetadata = (d, .needMore, none)) ∨
      (d.pendingMetadataSize.toNat + d.pendingBodySize.toNat ≤ d.unread.length ∧
        ∃ d' view, d.readMetadata = (d', .frameReady, some view) ∧ Sound d' ∧
          d'.state = .readFixedHeader ∧ d'.limits = d.limits ∧
          d'.preparedSize = d.preparedSize ∧
          d'.unread = d.unread.drop (d.pendingMetadataSize.toNat + d.pendingBodySize.toNat) ∧
          view.read d'.buffer = ⟨d.pendingHeader, d.unread.take d.pendingMetadataSize.toNat,
            (d.unread.drop d.pendingMetadataSize.toNat).take d.pendingBodySize.toNat⟩) := by
  have hm := d.pendingMetadataSize.toNat_lt
  have hb := d.pendingBodySize.toNat_lt
  have hsum : addSize d.pendingMetadataSize.toNat d.pendingBodySize.toNat =
      d.pendingMetadataSize.toNat + d.pendingBodySize.toNat := addSize_eq (by omega)
  unfold readMetadata
  simp only [readableBytes_eq h, hsum]
  split
  case isTrue hlt => exact .inl ⟨hlt, rfl⟩
  case isFalse hge =>
    have hlen := length_unread h
    have hread := h.read
    have hroom := h.room
    have hlt := h.lt_size
    have hle : d.pendingMetadataSize.toNat + d.pendingBodySize.toNat ≤ d.unread.length := by omega
    have hoff : addSize d.readOffset d.pendingMetadataSize.toNat =
        d.readOffset + d.pendingMetadataSize.toNat := addSize_eq (by omega)
    have hend : addSize (d.readOffset + d.pendingMetadataSize.toNat) d.pendingBodySize.toNat =
        addSize d.readOffset (d.pendingMetadataSize.toNat + d.pendingBodySize.toNat) := by
      rw [addSize_eq (by omega), addSize_eq (by omega), Nat.add_assoc]
    simp only [hoff, hend]
    obtain ⟨hs, hunread⟩ := advance_spec .readFixedHeader h hle
    refine .inr ⟨hle, _, _, rfl, hs, rfl, rfl, rfl, hunread, ?_⟩
    have hmeta := read_slice 0 d.pendingMetadataSize.toNat h (by omega)
    have hbody := read_slice _ _ h hle
    simp only [FrameView.read, hbody]
    rw [Nat.add_zero] at hmeta
    rw [hmeta, drop_zero]

/-! ## `NextView` -/

/-- Whether 32 bytes are an acceptable header does not depend on what follows them. -/
theorem Accepts.extend {limits : FrameLimits} {data : Bytes} {header : FrameHeader} {m b : UInt32}
    (h : Accepts limits data header m b) (hlen : 32 ≤ data.length) (r : Bytes) :
    Accepts limits (data.take 32 ++ r) header m b :=
  { h with reads := by rw [h.reads.take_eq hlen]; exact headerReads_buildHeader r }

theorem accepts_unread_iff {header : FrameHeader} {m b : UInt32} (h : Sound d)
    (hlen : 32 ≤ d.unread.length) :
    Accepts d.limits (d.buffer.drop d.readOffset) header m b ↔
      Accepts d.limits d.unread header m b := by
  have htake : (d.buffer.drop d.readOffset).take 32 = d.unread.take 32 := by
    rw [drop_readOffset h, take_append_of_le_length hlen]
  constructor
  · intro ha
    have hext := ha.extend (by rw [drop_readOffset h, length_append]; omega) (d.unread.drop 32)
    rwa [htake, take_append_drop] at hext
  · intro ha
    have hext := ha.extend hlen ((d.buffer.drop d.readOffset).drop 32)
    rwa [← htake, take_append_drop] at hext

theorem nextView_short (h : Sound d) (hs : d.state = .readFixedHeader)
    (hlt : d.unread.length < 32) : d.nextView = (d, .needMore, none) := by
  unfold nextView
  rw [hs]
  exact if_pos (by rw [readableBytes_eq h]; exact hlt)

/-- The header step of `NextView`: it goes on to the strings of an acceptable header, and rejects
    exactly when there is none. -/
theorem nextView_header (h : Sound d) (hs : d.state = .readFixedHeader)
    (hlen : 32 ≤ d.unread.length) :
    (∃ header m b, Accepts d.limits d.unread header m b ∧
        d.nextView = (d.withHeader header m b).readMetadata ∧
        Sound (d.withHeader header m b) ∧
        (d.withHeader header m b).unread = d.unread.drop 32) ∨
      ∃ d', d.nextView = (d', .protocolError, none) ∧ Rejected d d' ∧
        ∀ header m b, ¬Accepts d.limits d.unread header m b := by
  have hread : ¬d.readableBytes < kFixedHeaderSize.toNat := by
    rw [readableBytes_eq h]
    exact Nat.not_lt.mpr hlen
  unfold nextView
  rw [hs]
  simp only [hread, if_false]
  rcases decodeHeader_cases d with ⟨header, m, b, ha⟩ | ⟨d', hd, hrej⟩
  · obtain ⟨hsound, hunread⟩ := advance_spec .readMetadata h hlen
    refine .inl ⟨header, m, b, (accepts_unread_iff h hlen).mp ha, ?_, ?_, hunread⟩
    · rw [decodeHeader_of_accepts ha]
    · exact { hsound with }
  · refine .inr ⟨d', by rw [hd], hrej, fun header m b ha => ?_⟩
    have := decodeHeader_of_accepts ((accepts_unread_iff h hlen).mpr ha)
    simp [hd] at this

/-! ## After a failure -/

/-- A failed decoder with no prepared write outstanding. -/
def Dead (d : FrameDecoder) : Prop := d.state = .failed ∧ d.preparedSize = 0

/-- Such a decoder stays so and answers nothing but failure, whatever is called on it short of
    `Reset`. -/
theorem Dead.apply {op : Op} (h : d.Dead) (hop : op ≠ .reset) :
    (d.apply op).1.Dead ∧ (d.apply op).2.Fails := by
  obtain ⟨hstate, hp⟩ := h
  cases op with
  | feed data => simp [FrameDecoder.apply, feed, hstate, hp, Reply.Fails, Dead]
  | prepareWritable size =>
    simp [FrameDecoder.apply, prepareWritable, hstate, hp, Reply.Fails, Dead]
  | write offset bs => simp [FrameDecoder.apply, hstate, hp, Reply.Fails, Dead]
  | commitWritable size => simp [FrameDecoder.apply, commitWritable, fail, hp, Reply.Fails, Dead]
  | next => simp [FrameDecoder.apply, next, nextView, hstate, hp, Reply.Fails, Dead]
  | nextView => simp [FrameDecoder.apply, nextView, hstate, hp, Reply.Fails, Dead]
  | reset => exact absurd rfl hop

end FrameDecoder
end CoroRpc.Protocol
