import CoroRpc.Lib.Run
import CoroRpc.Protocol.DecoderSpec

/-!
# The decoder accepts exactly the frame grammar

The results about whole streams. A `Session` is a decoder together with everything offered to it
and every frame it has handed out; its calls are the ways a caller delivers a chunk and asks for
a frame, in any order. The invariant (`Session.Inv`) is the claim itself, stated where the
decoder is: what has been offered is the encoding of what has been delivered, then the header in
hand, then the unread bytes. Chunking does not appear in it, which is the point.

A chunk is offered in one of two ways. `Feed` takes it whole. `PrepareWritable(room)` asks for
room first and `CommitWritable` then appends what was written, which may be less; the budget is
checked when the room is asked for, so it is the room that has to fit. Frames are asked for
between chunks. A `NextView` *between* the two calls would also be answered, but a failing one
there is followed by a `CommitWritable` that still answers `NEED_MORE`, since `CommitWritable`
does not look at the state.
-/

namespace CoroRpc.Protocol

open Lib List Option Frame FrameDecoder FrameEncoder

/-- What a caller does with the decoder. -/
inductive Call where
  | feed (chunk : Bytes)
  /-- `PrepareWritable(room)`, a write of `chunk` to the pointer, `CommitWritable(chunk.size)`. -/
  | write (room : Nat) (chunk : Bytes)
  | next
  | nextView
  deriving DecidableEq

structure Session where
  decoder : FrameDecoder
  /-- Every chunk offered so far, in order. -/
  offered : Bytes
  /-- Every frame handed out so far, in order. -/
  delivered : List Frame
  deriving DecidableEq

def Session.start (limits : FrameLimits) : Session := ⟨make limits, [], []⟩

def Session.step (σ : Session) : Call → Option Session
  | .feed chunk =>
    some { σ with
      decoder := (σ.decoder.feed (.bytes chunk)).1
      offered := σ.offered ++ chunk }
  | .write room chunk =>
    match σ.decoder.prepareWritable room with
    | (d, none) => some { σ with decoder := d, offered := σ.offered ++ chunk }
    | (d, some pointer) =>
      some { σ with
        decoder :=
          (commitWritable { d with buffer := writeAt d.buffer pointer chunk } chunk.length).1
        offered := σ.offered ++ chunk }
  | .next =>
    match σ.decoder.next with
    | (d, _, frame) => some { σ with decoder := d, delivered := σ.delivered ++ frame.toList }
  | .nextView =>
    match σ.decoder.nextView with
    | (d, _, view) =>
      some { σ with
        decoder := d
        delivered := σ.delivered ++ (view.map (·.read d.buffer)).toList }

/-- The unread bytes fit into the buffer together with the chunk that is fed, or with the room that
    `PrepareWritable` is asked for; what is then written is no longer than that room. -/
def Session.Fits (σ : Session) : Call → Prop
  | .feed chunk =>
    σ.decoder.unread.length + chunk.length ≤ σ.decoder.limits.maxBufferSize.toNat
  | .write room chunk => room ≠ 0 ∧ chunk.length ≤ room ∧
    σ.decoder.unread.length + room ≤ σ.decoder.limits.maxBufferSize.toNat
  | .next | .nextView => True

instance (σ : Session) (c : Call) : Decidable (σ.Fits c) := by
  cases c <;> unfold Session.Fits <;> infer_instance

def Session.answer (σ : Session) : DecodeStatus := σ.decoder.nextView.2.1

/-! ## The invariant -/

/-- How the offered bytes divide, by the state of the decoder. -/
def Session.Divides (σ : Session) : Prop :=
  match σ.decoder.state with
  | .readFixedHeader => σ.offered = σ.delivered.flatMap bytes ++ σ.decoder.unread
  | .readMetadata =>
    σ.decoder.pendingHeader.Valid ∧
    σ.decoder.pendingMetadataSize ≤ σ.decoder.limits.maxMetadataSize ∧
    σ.decoder.pendingBodySize ≤ σ.decoder.limits.maxBodySize ∧
    σ.offered = σ.delivered.flatMap bytes ++
      (buildHeader σ.decoder.pendingHeader.flags σ.decoder.pendingHeader.messageType
        σ.decoder.pendingHeader.requestId σ.decoder.pendingMetadataSize
        σ.decoder.pendingBodySize ++ σ.decoder.unread)
  | .failed => ∃ rest, σ.offered = σ.delivered.flatMap bytes ++ rest ∧ 32 ≤ rest.length ∧
    ∀ header m b, ¬FrameDecoder.Accepts σ.decoder.limits rest header m b

structure Session.Inv (limits : FrameLimits) (σ : Session) : Prop where
  sound : σ.decoder.Sound
  prepared : σ.decoder.preparedSize = 0
  sameLimits : σ.decoder.limits = limits
  delivered : ∀ f ∈ σ.delivered, f.Encodable ∧ f.Within limits
  divides : σ.Divides

namespace Session

variable {limits : FrameLimits} {σ σ' : Session}

theorem step_nextView (σ : Session) : σ.step .nextView = some { σ with
    decoder := σ.decoder.nextView.1
    delivered := σ.delivered ++
      (σ.decoder.nextView.2.2.map (·.read σ.decoder.nextView.1.buffer)).toList } := rfl

theorem inv_start (limits : FrameLimits) : Inv (make limits).limits (start limits) where
  sound := ⟨Nat.le_refl _, Nat.le_refl _, Nat.zero_le _⟩
  prepared := rfl
  sameLimits := rfl
  delivered := by simp [start]
  divides := by simp [Divides, start, make, unread]

variable {chunk : Bytes}

/-- A chunk that reaches the buffer is appended to the unread bytes, and to what was offered. -/
theorem Inv.append {d' : FrameDecoder} (hi : Inv limits σ) (hstate : σ.decoder.state ≠ .failed)
    (hs : d'.Sound) (hsame : σ.decoder.SamePlace d')
    (hunread : d'.unread = σ.decoder.unread ++ chunk) :
    Inv limits { σ with decoder := d', offered := σ.offered ++ chunk } := by
  refine ⟨hs, hsame.prepared.trans hi.prepared, hsame.limits.trans hi.sameLimits, hi.delivered, ?_⟩
  have hdiv := hi.divides
  unfold Divides at hdiv ⊢
  simp only [hsame.state, hsame.limits, hsame.header, hsame.metadataSize, hsame.bodySize, hunread]
  cases hst : σ.decoder.state with
  | readFixedHeader =>
    simp only [hst] at hdiv
    simp only [hdiv, append_assoc]
  | readMetadata =>
    simp only [hst] at hdiv
    obtain ⟨hv, hm, hb, hdiv⟩ := hdiv
    exact ⟨hv, hm, hb, by simp only [hdiv, append_assoc]⟩
  | failed => exact absurd hst hstate

theorem Inv.ignore (hi : Inv limits σ) (hstate : σ.decoder.state = .failed) :
    Inv limits { σ with offered := σ.offered ++ chunk } := by
  refine { hi with divides := ?_ }
  have hdiv := hi.divides
  simp only [Divides, hstate] at hdiv ⊢
  obtain ⟨rest, hoff, hlen, hno⟩ := hdiv
  refine ⟨rest ++ chunk, by rw [hoff, append_assoc], by simp; omega, fun header m b ha => ?_⟩
  have hext := ha.extend (by simp; omega) (rest.drop 32)
  rw [take_append_of_le_length hlen, take_append_drop] at hext
  exact hno header m b hext

theorem inv_feed (hi : Inv limits σ) (hok : σ.Fits (.feed chunk))
    (hs : σ.step (.feed chunk) = some σ') : Inv limits σ' := by
  cases hs
  by_cases hstate : σ.decoder.state = .failed
  · have hfeed : σ.decoder.feed (.bytes chunk) = (σ.decoder, .protocolError) := if_pos hstate
    rw [hfeed]
    exact hi.ignore hstate
  · obtain ⟨d', hfeed, hsound, hsame, hunread⟩ :=
      feed_spec hi.sound hi.prepared hstate hok
    rw [hfeed]
    exact hi.append hstate hsound hsame hunread

theorem inv_write {room : Nat} (hi : Inv limits σ) (hok : σ.Fits (.write room chunk))
    (hs : σ.step (.write room chunk) = some σ') : Inv limits σ' := by
  obtain ⟨hpos, hle, hfit⟩ := hok
  by_cases hstate : σ.decoder.state = .failed
  · have hprep : σ.decoder.prepareWritable room = (σ.decoder, none) := if_pos (.inl hstate)
    simp only [step, hprep, some.injEq] at hs
    subst hs
    exact hi.ignore hstate
  · obtain ⟨d₁, pointer, d₂, hprep, hcommit, hsound, hsame, hunread⟩ :=
      prepare_commit_spec hi.sound hi.prepared hstate hpos hle hfit
    simp only [step, hprep, hcommit, some.injEq] at hs
    subst hs
    exact hi.append hstate hsound hsame hunread

/-- The frame made of a pending header and the next unread bytes encodes to the header and those
    bytes. -/
theorem bytes_eq {header : FrameHeader} {m b : UInt32} {unread : Bytes}
    (hlen : m.toNat + b.toNat ≤ unread.length) :
    bytes ⟨header, unread.take m.toNat, (unread.drop m.toNat).take b.toNat⟩ =
      buildHeader header.flags header.messageType header.requestId m b ++
        unread.take (m.toNat + b.toNat) := by
  have hm : (unread.take m.toNat).length = m.toNat := by simp; omega
  have hb : ((unread.drop m.toNat).take b.toNat).length = b.toNat := by simp; omega
  simp only [bytes, headerBytes, hm, hb, UInt32.ofNat_toNat, append_assoc, take_add]

theorem inv_readMetadata {d : FrameDecoder} {status : DecodeStatus} {view : Option FrameView}
    (hi : Inv limits σ) (hst : σ.decoder.state = .readMetadata)
    (hr : σ.decoder.readMetadata = (d, status, view)) :
    Inv limits { σ with decoder := d,
                        delivered := σ.delivered ++ (view.map (·.read d.buffer)).toList } := by
  have hdiv := hi.divides
  rcases readMetadata_spec hi.sound with
    ⟨-, hmore⟩ | ⟨hlen, d', view', hready, hsound, hstate, hlim, hprep, hunread, hframe⟩
  · rw [hmore] at hr
    cases hr
    simpa using hi
  · rw [hready] at hr
    cases hr
    simp only [Divides, hst] at hdiv
    obtain ⟨hv, hm, hb, hoff⟩ := hdiv
    have hmlt := σ.decoder.pendingMetadataSize.toNat_lt
    have hblt := σ.decoder.pendingBodySize.toNat_lt
    have hlim' := hi.sameLimits
    rw [UInt32.le_iff_toNat_le, hlim'] at hm hb
    refine ⟨hsound, hprep.trans hi.prepared, hlim.trans hlim', ?_, ?_⟩
    · simp only [map_some, toList_some, hframe]
      intro f hf
      rcases mem_append.mp hf with hf | hf
      · exact hi.delivered f hf
      · rw [mem_singleton.mp hf]
        refine ⟨⟨?_, ?_, hv⟩, ?_, ?_⟩ <;> simp only [length_take] <;> omega
    · simp only [Divides, hstate, map_some, toList_some, hframe, hunread,
        flatMap_append, flatMap_singleton, bytes_eq hlen, append_assoc,
        take_append_drop]
      exact hoff

/-- Between the two halves of the loop of `NextView` a header is in hand, and the invariant holds
    there too. -/
theorem inv_withHeader {header : FrameHeader} {m b : UInt32} (hi : Inv limits σ)
    (hst : σ.decoder.state = .readFixedHeader) (hlen : 32 ≤ σ.decoder.unread.length)
    (ha : FrameDecoder.Accepts σ.decoder.limits σ.decoder.unread header m b)
    (hsound : (σ.decoder.withHeader header m b).Sound)
    (hunread : (σ.decoder.withHeader header m b).unread = σ.decoder.unread.drop 32) :
    Inv limits { σ with decoder := σ.decoder.withHeader header m b } := by
  refine ⟨hsound, hi.prepared, hi.sameLimits, hi.delivered,
    ha.valid, ha.metadataLimit, ha.bodyLimit, ?_⟩
  have hdiv := hi.divides
  simp only [Divides, hst] at hdiv
  simp only [hunread]
  rw [hdiv, ← take_append_drop 32 σ.decoder.unread, ha.reads.take_eq hlen]
  simp [withHeader]

theorem inv_nextView (hi : Inv limits σ) (hs : σ.step .nextView = some σ') : Inv limits σ' := by
  simp only [step, some.injEq] at hs
  subst hs
  cases hst : σ.decoder.state with
  | failed =>
    have hnext : σ.decoder.nextView = (σ.decoder, .protocolError, none) := by
      simp only [nextView, hst]
    simpa [hnext] using hi
  | readMetadata =>
    have hnext : σ.decoder.nextView = σ.decoder.readMetadata := by
      simp only [nextView, hst]
    rw [hnext]
    exact inv_readMetadata hi hst rfl
  | readFixedHeader =>
    have hdiv := hi.divides
    simp only [Divides, hst] at hdiv
    by_cases hlen : σ.decoder.unread.length < 32
    · simpa [nextView_short hi.sound hst hlen] using hi
    rcases nextView_header hi.sound hst (Nat.le_of_not_lt hlen) with
      ⟨header, m, b, ha, hnext, hsound, hunread⟩ | ⟨d', hnext, hrej, hno⟩
    · have hdone := inv_readMetadata
        (inv_withHeader hi hst (Nat.le_of_not_lt hlen) ha hsound hunread) rfl (Prod.eta _).symm
      simpa only [hnext] using hdone
    · simp only [hnext, map_none, toList_none, append_nil]
      have hsound := hi.sound
      refine ⟨⟨?_, ?_, ?_⟩, hrej.prepared.trans hi.prepared, hrej.limits.trans hi.sameLimits,
        hi.delivered, ?_⟩
      · rw [hrej.readOffset, hrej.bufferSize]; exact hsound.read
      · rw [hrej.bufferSize, hrej.prepared, hrej.buffer]; exact hsound.room
      · rw [hrej.buffer, hrej.limits]; exact hsound.limit
      · simp only [Divides, hrej.state, hrej.limits]
        exact ⟨σ.decoder.unread, hdiv, Nat.le_of_not_lt hlen, hno⟩

theorem inv_step {c : Call} (hi : Inv limits σ) (hok : σ.Fits c) (hs : σ.step c = some σ') :
    Inv limits σ' := by
  cases c with
  | feed chunk => exact inv_feed hi hok hs
  | write room chunk => exact inv_write hi hok hs
  | next => exact inv_nextView hi hs
  | nextView => exact inv_nextView hi hs

theorem inv_of_reaches (h : Reaches step Fits (start limits) σ) : Inv (make limits).limits σ :=
  h.invariant (inv_start limits) fun _ _ _ hi hok hs => inv_step hi hok hs

/-! ## What an answer says about the rest -/

/-- The rest is a proper prefix of the encoding of some frame within the limits. -/
def Truncated (limits : FrameLimits) (rest : Bytes) : Prop :=
  ∃ f : Frame, f.Encodable ∧ f.Within limits ∧ rest <+: f.bytes ∧ rest ≠ f.bytes

/-- The rest starts with 32 bytes that are not the header of any frame within the limits. -/
def Malformed (limits : FrameLimits) (rest : Bytes) : Prop :=
  32 ≤ rest.length ∧ ∀ f : Frame, f.Encodable → f.Within limits → rest.take 32 ≠ f.headerBytes

/-- Waiting for the strings of a header: what is there is a proper prefix of the frame that
    would be complete if zeros followed. -/
theorem rest_of_readMetadata (hi : Inv limits σ) (hst : σ.decoder.state = .readMetadata)
    (hmore : σ.decoder.readMetadata.2.1 = .needMore) :
    ∃ rest, σ.offered = σ.delivered.flatMap bytes ++ rest ∧ Truncated limits rest := by
  have hdiv := hi.divides
  simp only [Divides, hst] at hdiv
  obtain ⟨hv, hm, hb, hoff⟩ := hdiv
  rcases readMetadata_spec hi.sound with ⟨hlt, -⟩ | ⟨-, d', view, hready, -⟩
  case inr => simp [hready] at hmore
  have hmlt := σ.decoder.pendingMetadataSize.toNat_lt
  have hblt := σ.decoder.pendingBodySize.toNat_lt
  rw [UInt32.le_iff_toNat_le, hi.sameLimits] at hm hb
  generalize hu : σ.decoder.unread = u at hlt hoff
  generalize hms : σ.decoder.pendingMetadataSize = ms at *
  generalize hbs : σ.decoder.pendingBodySize = bs at *
  have hpad : ms.toNat + bs.toNat ≤
      (u ++ List.replicate (ms.toNat + bs.toNat) (0 : UInt8)).length := by simp
  have htake : (u ++ List.replicate (ms.toNat + bs.toNat) (0 : UInt8)).take
      (ms.toNat + bs.toNat) = u ++ List.replicate (ms.toNat + bs.toNat - u.length) 0 := by
    rw [take_append, take_of_length_le (by omega), take_replicate, Nat.min_eq_left (by omega)]
  refine ⟨_, hoff, ⟨σ.decoder.pendingHeader,
    (u ++ List.replicate (ms.toNat + bs.toNat) 0).take ms.toNat,
    ((u ++ List.replicate (ms.toNat + bs.toNat) 0).drop ms.toNat).take bs.toNat⟩,
    ⟨?_, ?_, hv⟩, ⟨?_, ?_⟩, ?_, ?_⟩
  · simp only [length_take]; omega
  · simp only [length_take]; omega
  · simp only [length_take]; omega
  · simp only [length_take]; omega
  · rw [bytes_eq hpad, htake, ← append_assoc]
    exact prefix_append _ _
  · rw [bytes_eq hpad, htake]
    intro heq
    have := congrArg List.length heq
    simp at this
    omega

theorem rest_of_needMore (hi : Inv limits σ) (ha : σ.answer = .needMore) :
    ∃ rest, σ.offered = σ.delivered.flatMap bytes ++ rest ∧
      (rest.length < 32 ∨ Truncated limits rest) := by
  cases hst : σ.decoder.state with
  | failed => simp [answer, nextView, hst] at ha
  | readMetadata =>
    simp only [answer, nextView, hst] at ha
    obtain ⟨rest, hoff, htr⟩ := rest_of_readMetadata hi hst ha
    exact ⟨rest, hoff, .inr htr⟩
  | readFixedHeader =>
    have hdiv := hi.divides
    simp only [Divides, hst] at hdiv
    by_cases hlen : σ.decoder.unread.length < 32
    · exact ⟨_, hdiv, .inl hlen⟩
    rcases nextView_header hi.sound hst (Nat.le_of_not_lt hlen) with
      ⟨header, m, b, hacc, hnext, hsound, hunread⟩ | ⟨d', hnext, -, -⟩
    · rw [answer, hnext] at ha
      obtain ⟨rest, hoff, htr⟩ := rest_of_readMetadata
        (inv_withHeader hi hst (Nat.le_of_not_lt hlen) hacc hsound hunread) rfl ha
      exact ⟨rest, hoff, .inr htr⟩
    · simp [answer, hnext] at ha

variable {rest : Bytes}

theorem malformed_of_not_accepts (hlen : 32 ≤ rest.length)
    (hno : ∀ header m b, ¬FrameDecoder.Accepts limits rest header m b) :
    Malformed limits rest := by
  refine ⟨hlen, fun f hf hw heq => hno f.header (UInt32.ofNat f.metadata.length)
    (UInt32.ofNat f.body.length) ⟨?_, hf.2.2, ?_, ?_⟩⟩
  · have := f.headerReads (rest.drop 32)
    rwa [← heq, take_append_drop] at this
  · rw [UInt32.le_iff_toNat_le, toNat_ofNat_length hf.1]
    exact hw.1
  · rw [UInt32.le_iff_toNat_le, toNat_ofNat_length hf.2.1]
    exact hw.2

theorem rest_of_failed (hi : Inv limits σ) (hst : σ.decoder.state = .failed) :
    ∃ rest, σ.offered = σ.delivered.flatMap bytes ++ rest ∧ Malformed limits rest := by
  have hdiv := hi.divides
  simp only [Divides, hst, hi.sameLimits] at hdiv
  obtain ⟨rest, hoff, hlen, hno⟩ := hdiv
  exact ⟨rest, hoff, malformed_of_not_accepts hlen hno⟩

/-- A view comes with `FRAME_READY` and with nothing else, and `PROTOCOL_ERROR` only comes from
    a decoder that has failed. -/
theorem nextView_result (hi : Inv limits σ) {d : FrameDecoder} {status : DecodeStatus}
    {view : Option FrameView} (h : σ.decoder.nextView = (d, status, view)) :
    (view.isSome = true ↔ status = .frameReady) ∧
      (status = .protocolError → d.state = .failed) := by
  have hmeta : ∀ {d₀ d : FrameDecoder} {status : DecodeStatus} {view : Option FrameView},
      d₀.readMetadata = (d, status, view) →
      (view.isSome = true ↔ status = .frameReady) ∧
        (status = .protocolError → d.state = .failed) := by
    intro d₀ d status view h
    unfold readMetadata at h
    simp only at h
    split at h <;> cases h <;> simp
  cases hst : σ.decoder.state with
  | failed =>
    simp only [nextView, hst] at h
    cases h
    simp [hst]
  | readMetadata =>
    simp only [nextView, hst] at h
    exact hmeta h
  | readFixedHeader =>
    by_cases hlen : σ.decoder.unread.length < 32
    · rw [nextView_short hi.sound hst hlen] at h
      cases h
      simp
    rcases nextView_header hi.sound hst (Nat.le_of_not_lt hlen) with
      ⟨header, m, b, -, hnext, -, -⟩ | ⟨d', hnext, hrej, -⟩
    · exact hmeta (hnext ▸ h)
    · rw [hnext] at h
      cases h
      simp [hrej.state]

/-- Where the answer is `PROTOCOL_ERROR`, asking leaves a failed decoder with no prepared
    write, and hands out nothing. -/
theorem failed_of_protocolError (hi : Inv limits σ) (ha : σ.answer = .protocolError) :
    σ.decoder.nextView.1.state = .failed ∧ σ.decoder.nextView.1.preparedSize = 0 ∧
      ∃ rest, σ.offered = σ.delivered.flatMap bytes ++ rest ∧ Malformed limits rest := by
  obtain ⟨hview, hfail⟩ := nextView_result hi (Prod.eta _).symm
  have hstate := hfail ha
  have hnone : σ.decoder.nextView.2.2 = none := by
    cases hv : σ.decoder.nextView.2.2 with
    | none => rfl
    | some view =>
      have : σ.answer = .frameReady := hview.mp (by simp [hv])
      simp [this] at ha
  have hafter : Inv limits { σ with decoder := σ.decoder.nextView.1 } := by
    have := inv_nextView hi (step_nextView σ)
    simpa only [hnone, map_none, toList_none, append_nil] using this
  obtain ⟨rest, hrest⟩ := rest_of_failed hafter hstate
  exact ⟨hstate, hafter.prepared, rest, hrest⟩

/-! ## Reading a stream in one way -/

theorem prefixFree_within (limits : FrameLimits) :
    PrefixFree (fun f => f.Encodable ∧ f.Within limits) bytes :=
  fun f g r r' hf hg => prefixFree_bytes f g r r' hf.1 hg.1

theorem incomplete_of_short (h : rest.length < 32) :
    Incomplete (fun f => f.Encodable ∧ f.Within limits) bytes rest := by
  rintro f r - rfl
  rw [length_append, length_bytes] at h
  omega

theorem incomplete_of_truncated (h : Truncated limits rest) :
    Incomplete (fun f => f.Encodable ∧ f.Within limits) bytes rest := by
  obtain ⟨g, hg, -, ⟨tail, htail⟩, hne⟩ := h
  rintro f r ⟨hf, -⟩ rfl
  rw [append_assoc] at htail
  obtain rfl : f = g := prefixFree_bytes f g (r ++ tail) [] hf hg (by simpa using htail)
  have hnil : r ++ tail = [] := append_cancel_left (htail.trans (append_nil _).symm)
  rw [(append_eq_nil_iff.mp hnil).1, append_nil] at hne
  exact hne rfl

theorem incomplete_of_malformed (h : Malformed limits rest) :
    Incomplete (fun f => f.Encodable ∧ f.Within limits) bytes rest := by
  rintro f r ⟨hf, hw⟩ rfl
  refine h.2 f hf hw ?_
  rw [bytes, append_assoc, append_assoc]
  exact take_left' (length_headerBytes f)

/-- A rest that is incomplete is what is left of the stream, and the frames before it are the
    frames of the stream. -/
theorem delivered_eq {fs : List Frame} (hi : Inv limits σ)
    (hfs : ∀ f ∈ fs, f.Encodable ∧ f.Within limits) (hoff : σ.offered = fs.flatMap bytes)
    (hrest : σ.offered = σ.delivered.flatMap bytes ++ rest)
    (hinc : Incomplete (fun f => f.Encodable ∧ f.Within limits) bytes rest) :
    σ.delivered = fs ∧ rest = [] := by
  refine (prefixFree_within limits).read_unique hi.delivered hfs hinc
    (incomplete_of_short (by simp)) ?_
  rw [← hrest, hoff, append_nil]

/-! ## Asking until there is nothing -/

theorem offered_split (hi : Inv limits σ) :
    ∃ rest, σ.offered = σ.delivered.flatMap bytes ++ rest := by
  have hdiv := hi.divides
  unfold Divides at hdiv
  split at hdiv
  · exact ⟨_, hdiv⟩
  · exact ⟨_, hdiv.2.2.2⟩
  · obtain ⟨rest, hrest, -⟩ := hdiv
    exact ⟨rest, hrest⟩

theorem delivered_bound (hi : Inv limits σ) : 32 * σ.delivered.length ≤ σ.offered.length := by
  have hflat : ∀ fs : List Frame, 32 * fs.length ≤ (fs.flatMap bytes).length := by
    intro fs
    induction fs with
    | nil => simp
    | cons f fs ih =>
      rw [flatMap_cons, length_append, length_bytes, length_cons]
      omega
  have hle := hflat σ.delivered
  obtain ⟨rest, hrest⟩ := offered_split hi
  rw [hrest, length_append]
  omega

/-- Asking again and again comes to an answer other than `FRAME_READY`: each frame handed out is
    at least a header of the bytes offered. -/
theorem exists_drained (hi : Inv limits σ) :
    ∃ σ', Reaches step (fun _ c => c = .nextView) σ σ' ∧ σ'.offered = σ.offered ∧
      σ'.answer ≠ .frameReady := by
  induction hn : σ.offered.length - σ.delivered.length using Nat.strongRecOn generalizing σ with
  | ind n ih =>
    by_cases ha : σ.answer = .frameReady
    case neg => exact ⟨σ, .refl, rfl, ha⟩
    obtain ⟨view, hview⟩ := isSome_iff_exists.mp ((nextView_result hi (Prod.eta _).symm).1.mpr ha)
    have hstep := step_nextView σ
    simp only [hview, map_some, toList_some] at hstep
    have hafter := inv_nextView hi hstep
    have hbound := delivered_bound hafter
    simp only [length_append, length_singleton] at hbound
    obtain ⟨σ', hreach, hoff, hdone⟩ := ih _ (by subst hn; simp; omega) hafter rfl
    exact ⟨σ', Reaches.trans (.tail .refl rfl hstep) hreach, hoff, hdone⟩

/-! ## Legal streams -/

section
variable {fs before : List Frame} {f : Frame} {tail : Bytes}

/-- On the encodings of frames within the limits the decoder does not fail, however much of the
    stream has arrived. -/
theorem answer_ne_protocolError (hi : Inv limits σ) (hfs : ∀ f ∈ fs, f.Encodable ∧ f.Within limits)
    (hoff : σ.offered ++ tail = fs.flatMap bytes) : σ.answer ≠ .protocolError := by
  intro ha
  obtain ⟨-, -, rest, hrest, hlen, hmal⟩ := failed_of_protocolError hi ha
  -- the rest is malformed with what will follow it, too
  have hmal' : Malformed limits (rest ++ tail) := by
    refine ⟨by simp only [length_append]; omega, fun f hf hw => ?_⟩
    rw [take_append_of_le_length hlen]
    exact hmal f hf hw
  have hstream : σ.delivered.flatMap bytes ++ (rest ++ tail) = fs.flatMap bytes ++ [] := by
    rw [← append_assoc, ← hrest, hoff, append_nil]
  have hend : Incomplete (fun f => f.Encodable ∧ f.Within limits) bytes [] :=
    incomplete_of_short (by simp)
  have hread := (prefixFree_within limits).read_unique hi.delivered hfs
    (incomplete_of_malformed hmal') hend hstream
  have hnil := congrArg List.length hread.2
  simp only [length_append, length_nil] at hnil
  omega

/-- Where the answer is `FRAME_READY`, the view that comes with it is of a frame within the
    limits whose encoding comes next in the stream. -/
theorem view_of_frameReady (hi : Inv limits σ) (ha : σ.answer = .frameReady) :
    ∃ view g rest, σ.decoder.nextView.2 = (.frameReady, some view) ∧
      view.read σ.decoder.nextView.1.buffer = g ∧ g.Encodable ∧ g.Within limits ∧
      σ.offered = σ.delivered.flatMap bytes ++ (g.bytes ++ rest) := by
  obtain ⟨view, hview⟩ := isSome_iff_exists.mp ((nextView_result hi (Prod.eta _).symm).1.mpr ha)
  have hafter := inv_nextView hi (step_nextView σ)
  simp only [hview, map_some, toList_some] at hafter
  obtain ⟨rest, hrest⟩ := offered_split hafter
  obtain ⟨hg, hw⟩ := hafter.delivered _ (mem_append_right _ (mem_singleton.mpr rfl))
  refine ⟨view, _, rest, Prod.ext ha hview, rfl, hg, hw, ?_⟩
  simpa only [flatMap_append, flatMap_singleton, append_assoc] using hrest

/-- The frames before it handed out, a frame within the limits that has arrived whole is the next
    to be handed out. -/
theorem view_of_next (hi : Inv limits σ) (hbefore : ∀ f ∈ before, f.Encodable ∧ f.Within limits)
    (hf : f.Encodable) (hw : f.Within limits) (hoff : σ.offered = before.flatMap bytes ++ f.bytes)
    (hdel : σ.delivered = before) :
    ∃ view, σ.decoder.nextView.2 = (.frameReady, some view) ∧
      view.read σ.decoder.nextView.1.buffer = f := by
  have hall : ∀ g ∈ before ++ [f], g.Encodable ∧ g.Within limits := fun g hg => by
    rcases mem_append.mp hg with hg | hg
    · exact hbefore g hg
    · rw [mem_singleton.mp hg]
      exact ⟨hf, hw⟩
  have hstream : σ.offered = (before ++ [f]).flatMap bytes := by
    rw [hoff, flatMap_append, flatMap_singleton]
  cases ha : σ.answer with
  | protocolError =>
    exact absurd ha (answer_ne_protocolError hi hall ((append_nil _).trans hstream))
  | needMore =>
    obtain ⟨rest, hrest, hshort⟩ := rest_of_needMore hi ha
    have hdone := (delivered_eq hi hall hstream hrest
      (hshort.elim incomplete_of_short incomplete_of_truncated)).1
    rw [hdel] at hdone
    exact absurd (congrArg List.length hdone) (by simp)
  | frameReady =>
    obtain ⟨view, g, rest, hview, hread, hg, -, hnext⟩ := view_of_frameReady hi ha
    rw [hdel, hoff] at hnext
    obtain rfl : f = g := prefixFree_bytes f g [] rest hf hg
      ((append_nil _).trans (append_cancel_left hnext))
    exact ⟨view, hview, hread⟩

/-- A frame beyond the limits is rejected when it has arrived whole. -/
theorem answer_of_not_within (hi : Inv limits σ) (hf : f.Encodable) (hw : ¬ f.Within limits)
    (hoff : σ.offered = f.bytes) : σ.answer = .protocolError := by
  have hother : ∀ g : Frame, g.Encodable → g.Within limits → ∀ r r',
      f.bytes ++ r ≠ g.bytes ++ r' := fun g hg hwg r r' heq =>
    hw (prefixFree_bytes f g r r' hf hg heq ▸ hwg)
  have hnone : σ.delivered = [] := by
    obtain ⟨rest, hrest⟩ := offered_split hi
    cases hdel : σ.delivered with
    | nil => rfl
    | cons g gs =>
      obtain ⟨hg, hwg⟩ := hi.delivered g (by simp [hdel])
      rw [hoff, hdel, flatMap_cons, append_assoc] at hrest
      exact absurd ((append_nil _).trans hrest) (hother g hg hwg [] _)
  cases ha : σ.answer with
  | protocolError => rfl
  | frameReady =>
    obtain ⟨view, g, rest, -, -, hg, hwg, hnext⟩ := view_of_frameReady hi ha
    rw [hoff, hnone] at hnext
    exact absurd ((append_nil _).trans hnext) (hother g hg hwg [] rest)
  | needMore =>
    obtain ⟨rest, hrest, hshort⟩ := rest_of_needMore hi ha
    rw [hoff, hnone, flatMap_nil, nil_append] at hrest
    subst hrest
    rcases hshort with hlt | ⟨g, hg, hwg, ⟨tail, htail⟩, -⟩
    · rw [length_bytes] at hlt
      omega
    · exact absurd (htail.trans (append_nil _).symm) (hother g hg hwg tail [])

end

end Session

/-! ## The grammar -/

theorem within_make {f : Frame} {limits : FrameLimits} :
    f.Within (make limits).limits ↔ f.Within limits := by
  unfold make Frame.Within
  simp only
  split <;> rfl

/-- **The decoder accepts exactly the frame grammar**, whatever the chunking and wherever frames
    are asked for. In every session within the budget:

    * when the decoder answers `NEED_MORE`, the bytes offered are the encodings of the frames
      delivered and then a rest that is shorter than a header or a proper prefix of the encoding
      of a frame within the limits;
    * when it answers `PROTOCOL_ERROR`, they are those encodings and then a rest whose first 32
      bytes are the header of no such frame, and from then on every call fails until `Reset`;
    * if they are the encodings of a list of frames within the limits, it never answers
      `PROTOCOL_ERROR`, and when it answers `NEED_MORE` it has delivered that list;
    * every frame delivered is one the encoder accepts, within the limits;
    * asking for frames comes to one of the two answers. -/
theorem decoder_accepts_frame_grammar {limits : FrameLimits} {σ : Session}
    (h : Reaches Session.step Session.Fits (Session.start limits) σ) :
    (σ.answer = .needMore → ∃ sent rest, encodeAll σ.delivered = .ok sent ∧
        σ.offered = sent ++ rest ∧
        (rest.length < 32 ∨ ∃ f e, encode f = .ok e ∧ f.Within limits ∧ rest <+: e ∧ rest ≠ e)) ∧
    (σ.answer = .protocolError →
      (∃ sent rest, encodeAll σ.delivered = .ok sent ∧ σ.offered = sent ++ rest ∧ 32 ≤ rest.length ∧
        ∀ f e, encode f = .ok e → f.Within limits → rest.take 32 ≠ e.take 32) ∧
      ∀ d, Reaches (fun d op => some (apply d op).1) (fun _ op => op ≠ .reset)
          σ.decoder.nextView.1 d →
        ∀ op, op ≠ .reset → (apply d op).2.Fails) ∧
    (∀ fs, (∀ f ∈ fs, f.Within limits) → encodeAll fs = .ok σ.offered →
      σ.answer ≠ .protocolError ∧ (σ.answer = .needMore → σ.delivered = fs)) ∧
    (∀ f ∈ σ.delivered, f.Within limits ∧ ∃ e, encode f = .ok e) ∧
    ∃ σ', Reaches Session.step (fun _ c => c = .nextView) σ σ' ∧ σ'.offered = σ.offered ∧
      σ'.answer ≠ .frameReady := by
  have hi := Session.inv_of_reaches h
  have hsent : encodeAll σ.delivered = .ok (σ.delivered.flatMap bytes) :=
    encodeAll_eq_ok.mpr ⟨fun f hf => (hi.delivered f hf).1, rfl⟩
  refine ⟨fun ha => ?_, fun ha => ⟨?_, ?_⟩, fun fs hw hfs => ?_, fun f hf => ?_,
    Session.exists_drained hi⟩
  · obtain ⟨rest, hoff, hrest⟩ := Session.rest_of_needMore hi ha
    refine ⟨_, rest, hsent, hoff, hrest.imp_right ?_⟩
    rintro ⟨f, hf, hwf, hpre, hne⟩
    exact ⟨f, _, encode_eq_ok.mpr ⟨hf, rfl⟩, within_make.mp hwf, hpre, hne⟩
  · obtain ⟨-, -, rest, hoff, hlen, hno⟩ := Session.failed_of_protocolError hi ha
    refine ⟨_, rest, hsent, hoff, hlen, fun f e he hwf heq => ?_⟩
    obtain ⟨hf, rfl⟩ := encode_eq_ok.mp he
    refine hno f hf (within_make.mpr hwf) (heq.trans ?_)
    rw [bytes, append_assoc]
    exact take_left' (length_headerBytes f)
  · obtain ⟨hstate, hprep, -⟩ := Session.failed_of_protocolError hi ha
    intro d hd op hop
    have hdead : d.Dead := hd.invariant ⟨hstate, hprep⟩ fun d op d' hd hop hs => by
      simp only [some.injEq] at hs
      exact hs ▸ (hd.apply hop).1
    exact (hdead.apply hop).2
  · obtain ⟨hok, hoff⟩ := encodeAll_eq_ok.mp hfs
    have hall : ∀ f ∈ fs, f.Encodable ∧ f.Within (make limits).limits :=
      fun f hf => ⟨hok f hf, within_make.mpr (hw f hf)⟩
    refine ⟨fun ha => ?_, fun ha => ?_⟩
    · obtain ⟨-, -, rest, hrest, hmal⟩ := Session.failed_of_protocolError hi ha
      have hnil := (Session.delivered_eq hi hall hoff hrest (Session.incomplete_of_malformed hmal)).2
      have := hmal.1
      simp [hnil] at this
    · obtain ⟨rest, hrest, hshort⟩ := Session.rest_of_needMore hi ha
      exact (Session.delivered_eq hi hall hoff hrest
        (hshort.elim Session.incomplete_of_short Session.incomplete_of_truncated)).1
  · exact ⟨within_make.mp (hi.delivered f hf).2, _, encode_eq_ok.mpr ⟨(hi.delivered f hf).1, rfl⟩⟩

/-- A `PING` split over a `Feed` and a prepared write, with frames asked for before, between and
    after; the smallest limits there are, so that the buffer is one header long. -/
theorem decoder_accepts_frame_grammar_ping :
    ∃ σ, Reaches Session.step Session.Fits (Session.start ⟨0, 0, 0⟩) σ ∧
      σ.answer = .needMore ∧ σ.delivered = [⟨⟨7, .ping, 9⟩, [], []⟩] ∧
      ∃ sent rest, encodeAll σ.delivered = .ok sent ∧ σ.offered = sent ++ rest := by
  refine exists_reaches_of_exec (p := fun σ => σ.answer = .needMore ∧
      σ.delivered = [⟨⟨7, .ping, 9⟩, [], []⟩])
    [.nextView, .feed ((bytes ⟨⟨7, .ping, 9⟩, [], []⟩).take 20), .next,
      .write 12 ((bytes ⟨⟨7, .ping, 9⟩, [], []⟩).drop 20), .nextView, .nextView]
    (by decide) fun σ hreach hs => ?_
  obtain ⟨hans, hdel⟩ := hs
  obtain ⟨sent, rest, hsent, hoff, -⟩ := (decoder_accepts_frame_grammar hreach).1 hans
  exact ⟨hans, hdel, sent, rest, hsent, hoff⟩

end CoroRpc.Protocol
