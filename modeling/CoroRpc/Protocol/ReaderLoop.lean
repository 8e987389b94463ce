import CoroRpc.Protocol.Grammar

/-!
# The reader loop on a stream of legal frames

`ServerConnection::ReaderLoop` and `MultiplexedConnection::ReaderLoop` do the same thing to their
decoder: ask for 16 KiB of room, commit what the socket gave, take frames until there is none. The
room is asked for on top of what the last round left unread, and that is less than a header or, with
the header consumed, less than the two strings it announces (`unread_of_needMore`). So the loop gets
its room if the buffer holds an almost complete frame and 16 KiB.

The constructor of the decoder does not see to that: it raises `max_buffer_size` to one whole frame
and no further. The default limits have close to 1 MiB to spare.
-/

namespace CoroRpc.Protocol

open Lib List FrameDecoder

/-- `constexpr std::size_t kReadSize` of both loops. -/
def kReadSize : Nat := 16 * 1024

inductive Place where
  /-- At the top: it asks for room next. -/
  | outer
  /-- In the inner loop: it asks for a frame next. -/
  | inner
  /-- It has closed the connection: there was no room, or the decoder answered `PROTOCOL_ERROR`. -/
  | closed
  deriving DecidableEq

/-- A reader with its decoder, with what the decoder was given and what it has handed out. -/
structure Reader where
  session : Session
  place : Place := .outer
  deriving DecidableEq

inductive ReadStep where
  /-- `PrepareWritable(kReadSize)`, a read that gives `received`, `CommitWritable`. -/
  | read (received : Bytes)
  | nextView
  deriving DecidableEq

namespace Reader

def start (limits : FrameLimits) : Reader := { session := .start limits }

/-- The reader of a connection whose peer sends `stream`. -/
def step (stream : Bytes) (r : Reader) : ReadStep → Option Reader
  | .read received =>
    if r.place = .outer ∧ 1 ≤ received.length ∧ received.length ≤ kReadSize ∧
        r.session.offered ++ received <+: stream then
      match r.session.decoder.prepareWritable kReadSize with
      | (d, none) => some ⟨{ r.session with decoder := d }, .closed⟩
      | (d, some pointer) =>
        match commitWritable { d with buffer := writeAt d.buffer pointer received }
            received.length with
        | (d, .protocolError) => some ⟨{ r.session with decoder := d }, .closed⟩
        | (d, _) =>
          some ⟨{ r.session with decoder := d, offered := r.session.offered ++ received }, .inner⟩
    else none
  | .nextView =>
    if r.place = .inner then
      match r.session.decoder.nextView with
      | (d, status, view) =>
        some ⟨{ r.session with
            decoder := d
            delivered := r.session.delivered ++ (view.map (·.read d.buffer)).toList },
          match status with
          | .needMore => .outer
          | .frameReady => .inner
          | .protocolError => .closed⟩
    else none

/-- The most that a round leaves unread: all of a header but a byte, or all of the two strings. -/
def mostUnread (limits : FrameLimits) : Nat :=
  max kFixedHeaderSize.toNat (limits.maxMetadataSize.toNat + limits.maxBodySize.toNat) - 1

/-- That and the room for a read fit into the decoder's buffer. -/
def Roomy (limits : FrameLimits) : Prop :=
  mostUnread limits + kReadSize ≤ (make limits).limits.maxBufferSize.toNat

instance (limits : FrameLimits) : Decidable (Roomy limits) := inferInstanceAs (Decidable (_ ≤ _))

theorem le_mostUnread {limits : FrameLimits} {n : Nat}
    (h : n < 32 ∨ n < limits.maxMetadataSize.toNat + limits.maxBodySize.toNat) :
    n ≤ mostUnread limits := by
  have hheader : kFixedHeaderSize.toNat = 32 := rfl
  unfold mostUnread
  omega

end Reader

namespace Session

variable {limits : FrameLimits} {σ : Session}

/-- A decoder that waits for the strings of a header stays as it is, with less than them unread. -/
theorem unread_of_readMetadata (hi : Inv limits σ) (hst : σ.decoder.state = .readMetadata)
    (hmore : σ.decoder.readMetadata.2.1 = .needMore) :
    σ.decoder.readMetadata.1 = σ.decoder ∧
      σ.decoder.unread.length < limits.maxMetadataSize.toNat + limits.maxBodySize.toNat := by
  have hdiv := hi.divides
  simp only [Divides, hst] at hdiv
  obtain ⟨-, hm, hb, -⟩ := hdiv
  rw [UInt32.le_iff_toNat_le, hi.sameLimits] at hm hb
  rcases readMetadata_spec hi.sound with ⟨hlt, hsame⟩ | ⟨-, d', view, hready, -⟩
  · exact ⟨congrArg Prod.fst hsame, by omega⟩
  · rw [hready] at hmore
    cases hmore

theorem unread_of_needMore (hi : Inv limits σ) (ha : σ.answer = .needMore) :
    σ.decoder.nextView.1.state ≠ .failed ∧
      σ.decoder.nextView.1.unread.length ≤ Reader.mostUnread limits := by
  unfold answer at ha
  cases hst : σ.decoder.state with
  | failed =>
    simp only [nextView, hst] at ha
    cases ha
  | readMetadata =>
    have hnext : σ.decoder.nextView = σ.decoder.readMetadata := by
      simp only [nextView, hst]
    rw [hnext] at ha ⊢
    obtain ⟨hsame, hlt⟩ := unread_of_readMetadata hi hst ha
    rw [hsame, hst]
    exact ⟨by simp, Reader.le_mostUnread (.inr hlt)⟩
  | readFixedHeader =>
    by_cases hlen : σ.decoder.unread.length < 32
    · rw [nextView_short hi.sound hst hlen, hst]
      exact ⟨by simp, Reader.le_mostUnread (.inl hlen)⟩
    rcases nextView_header hi.sound hst (Nat.le_of_not_lt hlen) with
      ⟨header, m, b, hacc, hnext, hsound, hunread⟩ | ⟨d', hnext, -, -⟩
    · -- the header is consumed, and its strings are not there
      rw [hnext] at ha ⊢
      have hi' := inv_withHeader hi hst (Nat.le_of_not_lt hlen) hacc hsound hunread
      obtain ⟨hsame, hlt⟩ := unread_of_readMetadata hi' rfl ha
      rw [hsame]
      exact ⟨by simp [withHeader], Reader.le_mostUnread (.inr hlt)⟩
    · rw [hnext] at ha
      cases ha

end Session

namespace Reader

variable {limits : FrameLimits} {stream : Bytes} {r r' : Reader}

/-- The decoder divides what it was given, which is the front of the stream; at the top of the loop
    it has only so much unread; and the connection is open. -/
structure Inv (limits : FrameLimits) (stream : Bytes) (r : Reader) : Prop where
  session : Session.Inv (make limits).limits r.session
  offered : r.session.offered <+: stream
  unread : r.place = .outer → r.session.decoder.state ≠ .failed ∧
    r.session.decoder.unread.length ≤ mostUnread limits
  isOpen : r.place ≠ .closed

theorem inv_start (limits : FrameLimits) (stream : Bytes) : Inv limits stream (start limits) where
  session := Session.inv_start limits
  offered := nil_prefix
  unread := fun _ => ⟨by simp [start, Session.start, make], Nat.zero_le _⟩
  isOpen := by simp [start]

theorem mostUnread_make (limits : FrameLimits) :
    mostUnread (make limits).limits = mostUnread limits := by
  unfold make
  dsimp only
  split
  · rfl
  · rfl

section
variable (hroomy : Roomy limits) {fs : List Frame}
  (hfs : ∀ f ∈ fs, f.Encodable ∧ f.Within limits) (hstream : stream = fs.flatMap Frame.bytes)

include hroomy in
/-- Where the limits are roomy, the decoder has the room that the loop asks for. -/
theorem Inv.prepare_commit (h : Inv limits stream r) (hplace : r.place = .outer) {received : Bytes}
    (hle : received.length ≤ kReadSize) :
    ∃ d₁ pointer d₂, r.session.decoder.prepareWritable kReadSize = (d₁, some pointer) ∧
      commitWritable { d₁ with buffer := writeAt d₁.buffer pointer received }
        received.length = (d₂, .needMore) ∧
      Session.Inv (make limits).limits
        { r.session with decoder := d₂, offered := r.session.offered ++ received } := by
  obtain ⟨hstate, hunread⟩ := h.unread hplace
  have hfit : r.session.decoder.unread.length + kReadSize ≤
      r.session.decoder.limits.maxBufferSize.toNat := by
    rw [h.session.sameLimits]
    exact Nat.le_trans (Nat.add_le_add_right hunread kReadSize) hroomy
  obtain ⟨d₁, pointer, d₂, hprep, hcommit, hsound, hsame, happended⟩ :=
    prepare_commit_spec h.session.sound h.session.prepared hstate (by decide) hle hfit
  exact ⟨d₁, pointer, d₂, hprep, hcommit, h.session.append hstate hsound hsame happended⟩

include hfs hstream in
theorem Inv.answer_ne_protocolError (h : Inv limits stream r) :
    r.session.answer ≠ .protocolError := by
  obtain ⟨tail, htail⟩ := h.offered
  have hlegal : ∀ f ∈ fs, f.Encodable ∧ f.Within (make limits).limits :=
    fun f hf => ⟨(hfs f hf).1, within_make.mpr (hfs f hf).2⟩
  exact Session.answer_ne_protocolError h.session hlegal (htail.trans hstream)

include hroomy hfs hstream in
theorem Inv.step {label : ReadStep} (h : Inv limits stream r) (hs : r.step stream label = some r') :
    Inv limits stream r' := by
  cases label with
  | read received =>
    simp only [Reader.step] at hs
    split at hs
    · rename_i hread
      obtain ⟨hplace, -, hle, hprefix⟩ := hread
      obtain ⟨d₁, pointer, d₂, hprep, hcommit, hinv⟩ := h.prepare_commit hroomy hplace hle
      simp only [hprep, hcommit] at hs
      cases hs
      exact ⟨hinv, hprefix, (fun hplace => by cases hplace), (fun hplace => by cases hplace)⟩
    · cases hs
  | nextView =>
    have hlegal := h.answer_ne_protocolError hfs hstream
    have hinv := Session.inv_nextView h.session (Session.step_nextView r.session)
    simp only [Reader.step] at hs
    split at hs
    · cases hs
      refine ⟨hinv, h.offered, fun hplace => ?_, fun hplace => ?_⟩
      · -- the loop goes back to the top after `NEED_MORE` only
        have hmore : r.session.answer = .needMore := by
          cases hanswer : r.session.decoder.nextView.2.1 with
          | needMore => exact hanswer
          | frameReady | protocolError =>
            simp only [hanswer] at hplace
            cases hplace
        have hunread := Session.unread_of_needMore h.session hmore
        rw [mostUnread_make] at hunread
        exact hunread
      · refine hlegal ?_
        cases hanswer : r.session.decoder.nextView.2.1 with
        | protocolError => exact hanswer
        | needMore | frameReady =>
          simp only [hanswer] at hplace
          cases hplace
    · cases hs

include hroomy hfs hstream in
theorem inv_of_reaches (h : Reachable (step stream) (start limits) r) : Inv limits stream r :=
  h.invariant (p := Inv limits stream) (inv_start limits stream)
    fun _ _ _ hr _ hs => hr.step hroomy hfs hstream hs

end

/-- **The reader loop never rejects a legal stream**, where the buffer has room for a read beside an
    almost complete frame: whatever the reads give of the encodings of frames within the limits,
    `PrepareWritable` returns no null pointer, no call answers `PROTOCOL_ERROR`, and so the loop
    never closes the connection. -/
theorem reader_loop_accepts_legal_stream {fs : List Frame} (hroomy : Roomy limits)
    (hfs : ∀ f ∈ fs, f.Within limits) (hstream : FrameEncoder.encodeAll fs = .ok stream)
    (h : Reachable (step stream) (start limits) r) :
    r.place ≠ .closed ∧
    (r.place = .outer → (r.session.decoder.prepareWritable kReadSize).2 ≠ none) ∧
    (r.place = .inner → r.session.decoder.nextView.2.1 ≠ .protocolError) := by
  obtain ⟨hencodable, rfl⟩ := FrameEncoder.encodeAll_eq_ok.mp hstream
  have hlegal : ∀ f ∈ fs, f.Encodable ∧ f.Within limits :=
    fun f hf => ⟨hencodable f hf, hfs f hf⟩
  have hinv := inv_of_reaches hroomy hlegal rfl h
  refine ⟨hinv.isOpen, fun hplace => ?_, fun _ => hinv.answer_ne_protocolError hlegal rfl⟩
  have hnothing : ([] : Bytes).length ≤ kReadSize := Nat.zero_le _
  obtain ⟨d₁, pointer, d₂, hprep, -, -⟩ := hinv.prepare_commit hroomy hplace hnothing
  rw [hprep]
  simp

def pingFrame : Frame := ⟨{ messageType := .ping }, [], []⟩

/-- With the default limits, a ping that arrives in two pieces. -/
theorem reader_loop_accepts_legal_stream_pieces :
    ∃ r, Reachable (step pingFrame.bytes) (start {}) r ∧ r.place = .outer ∧
      r.session.delivered = [pingFrame] ∧
      (r.session.decoder.prepareWritable kReadSize).2 ≠ none := by
  refine exists_reaches_of_exec (p := fun r => r.place = .outer ∧ r.session.delivered = [pingFrame])
    [.read (pingFrame.bytes.take 20), .nextView, .read (pingFrame.bytes.drop 20), .nextView,
      .nextView] (by decide +kernel) fun r hreach hs => ?_
  obtain ⟨hplace, hdelivered⟩ := hs
  have hstream : FrameEncoder.encodeAll [pingFrame] = .ok pingFrame.bytes := by decide +kernel
  have hwithin : ∀ f ∈ [pingFrame], f.Within {} := by
    intro f hf
    rw [mem_singleton.mp hf]
    exact ⟨Nat.zero_le _, Nat.zero_le _⟩
  exact ⟨hplace, hdelivered,
    (reader_loop_accepts_legal_stream (by decide) hwithin hstream hreach).2.1 hplace⟩

/-- Frames without metadata and body are all that is allowed here, and the constructor makes room
    for exactly one. A peer sends such a frame; the loop has no room to read it. -/
theorem reader_loop_without_room : FrameEncoder.encodeAll [pingFrame] = .ok pingFrame.bytes ∧
    (∀ f ∈ [pingFrame], f.Within ⟨0, 0, 0⟩) ∧
    ∃ r, Reachable (step pingFrame.bytes) (start ⟨0, 0, 0⟩) r ∧ r.place = .outer ∧
      (r.session.decoder.prepareWritable kReadSize).2 = none := by
  refine ⟨by decide +kernel, fun f hf => ?_, start ⟨0, 0, 0⟩, .refl, rfl, by decide +kernel⟩
  rw [mem_singleton.mp hf]
  exact ⟨Nat.zero_le _, Nat.zero_le _⟩

end Reader

end CoroRpc.Protocol
