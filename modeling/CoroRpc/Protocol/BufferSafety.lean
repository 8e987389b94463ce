import CoroRpc.Lib.Run
import CoroRpc.Protocol.DecoderSpec

/-!
# The decoder's buffer under every order of calls

`Protocol/Grammar.lean` keeps to callers that ask for room, write and commit in one go. Here the
public operations come in any order, with any sizes, and the caller writes wherever it likes into
the area that `PrepareWritable` gave it, for as long as the area is its own. `Caller` is the decoder
with that area: the pointer, and the bytes that a reader of the area would find there.

The invariant is that the area lies directly behind the data and inside the buffer (`Holds`). Every
operation but one leaves the area where it is, or ends the reservation. The one is `Feed`, which
does not look at `prepared_size_`: it copies its bytes to the place the area starts at, and its
`CompactBuffer` and `EnsureWritable` move the data without the area. So the invariant is kept where
no bytes are fed while an area is out (`Caller.Respects`), and a byte is enough to lose it.
-/

namespace CoroRpc.Protocol
namespace FrameDecoder

open Lib List

/-- Both strings of a view end within the first `n` bytes of the buffer. -/
def Inside (view : FrameView) (n : Nat) : Prop :=
  view.metadata.offset + view.metadata.size ≤ n ∧ view.body.offset + view.body.size ≤ n

/-- A decoder and the area its caller may write to: the pointer and the bytes there. -/
structure Caller where
  decoder : FrameDecoder
  area : Option (Nat × Bytes) := none
  deriving DecidableEq

namespace Caller

def start (limits : FrameLimits) : Caller := { decoder := make limits }

/-- An operation of the decoder; a write is one into the area. -/
def step (s : Caller) (op : Op) : Option Caller :=
  match op with
  | .write offset bs =>
    match s.area with
    | none => none
    | some (pointer, content) =>
      if pointer ≤ offset ∧ offset + bs.length ≤ pointer + content.length then
        some ⟨(s.decoder.apply op).1, some (pointer, writeAt content (offset - pointer) bs)⟩
      else none
  | .prepareWritable size =>
    match s.decoder.prepareWritable size with
    | (d, some pointer) => some ⟨d, some (pointer, (d.buffer.drop pointer).take size)⟩
    | (d, none) => some ⟨d, s.area⟩
  | .commitWritable _ | .reset => some ⟨(s.decoder.apply op).1, none⟩
  | .feed _ | .next | .nextView => some ⟨(s.decoder.apply op).1, s.area⟩

/-- No bytes are fed while an area is out. -/
def Respects (s : Caller) : Op → Prop
  | .feed (.bytes (_ :: _)) => s.decoder.preparedSize = 0
  | _ => True

instance (s : Caller) : ∀ op, Decidable (s.Respects op)
  | .feed (.bytes (_ :: _)) => inferInstanceAs (Decidable (_ = _))
  | .feed (.bytes []) | .feed (.null _) | .prepareWritable _ | .write .. | .commitWritable _
  | .next | .nextView | .reset => .isTrue trivial

end Caller

/-! ## Writing into the area -/

theorem drop_writeAt (buffer bs : Bytes) {pointer : Nat} (k : Nat) (h : pointer + k ≤ buffer.length) :
    (writeAt buffer (pointer + k) bs).drop pointer = writeAt (buffer.drop pointer) k bs := by
  rw [writeAt, writeAt, append_assoc, append_assoc, drop_append_of_le_length,
    drop_take, Nat.add_sub_cancel_left, drop_drop, Nat.add_assoc]
  rw [length_take]
  omega

theorem take_writeAt_of_le {buffer bs : Bytes} {k n : Nat} (h : k + bs.length ≤ n)
    (hn : n ≤ buffer.length) : (writeAt buffer k bs).take n = writeAt (buffer.take n) k bs := by
  have hk : (buffer.take k).length = k := by
    rw [length_take]
    omega
  rw [writeAt, writeAt, take_append, length_append, hk, take_of_length_le,
    take_take, Nat.min_eq_left (by omega), drop_take]
  rw [length_append, hk]
  exact h

theorem take_writeAt_left {buffer bs : Bytes} {offset n : Nat} (h : n ≤ offset)
    (hoffset : offset ≤ buffer.length) : (writeAt buffer offset bs).take n = buffer.take n := by
  have hlen : (buffer.take offset).length = offset := by
    rw [length_take]
    omega
  rw [writeAt, append_assoc, take_append_of_le_length (by omega), take_take, Nat.min_eq_left h]

/-! ## Room that is not there -/

variable {d d' : FrameDecoder}

theorem Sound.fail (h : Sound d) (message : String) : Sound (d.fail message) :=
  { h with }

theorem ensureWritable_cases (size : Nat) (h : Sound d) (hp : d.preparedSize = 0) :
    (d.bufferSize + size ≤ d.limits.maxBufferSize.toNat ∧
      ∃ d', d.ensureWritable size = (d', true) ∧ Sound d' ∧ SamePlace d d' ∧
        d'.unread = d.unread ∧ d'.bufferSize = d.bufferSize ∧
        d.bufferSize + size ≤ d'.buffer.length) ∨
    d.ensureWritable size = (d.fail "decoder buffer limit exceeded", false) := by
  by_cases hfit : d.bufferSize + size ≤ d.limits.maxBufferSize.toNat
  · exact .inl ⟨hfit, ensureWritable_spec size h hp hfit⟩
  · have hroom := h.room
    have hlimit := h.limit
    have hsub := subSize_eq (a := d.limits.maxBufferSize.toNat) (b := d.bufferSize) (by omega)
    exact .inr (if_pos (by omega))

/-- What `makeRoom` does: there is room behind the data now, or the decoder has failed. -/
theorem makeRoom_cases (size : Nat) (h : Sound d) (hp : d.preparedSize = 0) :
    ∃ d' found, d.makeRoom size = (d', found) ∧ Sound d' ∧ d'.limits = d.limits ∧
      d'.preparedSize = 0 ∧
      (found = true → d'.unread = d.unread ∧ d'.bufferSize + size ≤ d'.buffer.length) := by
  -- the decoder that `EnsureWritable` is called on
  have hcompact : ∃ e, (if size > subSize d.buffer.length d.bufferSize then d.compactBuffer else d) =
      e ∧ Sound e ∧ SamePlace d e ∧ e.unread = d.unread := by
    split
    · obtain ⟨hs, hsame, hunread, -⟩ := compactBuffer_spec h hp
      exact ⟨_, rfl, hs, hsame, hunread⟩
    · exact ⟨d, rfl, h, .refl d, rfl⟩
  obtain ⟨e, he, hs, hsame, hunread⟩ := hcompact
  unfold makeRoom
  rw [he]
  rcases ensureWritable_cases size hs (hsame.prepared.trans hp) with
    ⟨-, d', hd', hs', hsame', hunread', hsize', hcap⟩ | hfail
  · refine ⟨d', true, hd', hs', (hsame.trans hsame').limits, ((hsame.trans hsame').prepared).trans hp,
      fun _ => ⟨hunread'.trans hunread, ?_⟩⟩
    rw [hsize']
    exact hcap
  · exact ⟨_, false, hfail, hs.fail _, hsame.limits, hsame.prepared.trans hp, fun hfound => by
      cases hfound⟩

/-! ## Reading -/

/-- The buffer, what is in it and what is reserved are as they were. -/
structure Untouched (d d' : FrameDecoder) : Prop where
  limits : d'.limits = d.limits
  buffer : d'.buffer = d.buffer
  bufferSize : d'.bufferSize = d.bufferSize
  prepared : d'.preparedSize = d.preparedSize

theorem Untouched.refl (d : FrameDecoder) : Untouched d d := ⟨rfl, rfl, rfl, rfl⟩

theorem Untouched.sound (hu : Untouched d d') (h : Sound d) (hread : d'.readOffset ≤ d'.bufferSize) :
    Sound d' := by
  refine ⟨hread, ?_, ?_⟩
  · rw [hu.bufferSize, hu.prepared, hu.buffer]
    exact h.room
  · rw [hu.buffer, hu.limits]
    exact h.limit

theorem readMetadata_safe (h : Sound d) : Sound d.readMetadata.1 ∧ Untouched d d.readMetadata.1 ∧
      ∀ view, d.readMetadata.2.2 = some view → Inside view d.bufferSize := by
  have hm := d.pendingMetadataSize.toNat_lt
  have hb := d.pendingBodySize.toNat_lt
  have hsum : addSize d.pendingMetadataSize.toNat d.pendingBodySize.toNat =
      d.pendingMetadataSize.toNat + d.pendingBodySize.toNat := addSize_eq (by omega)
  unfold readMetadata
  simp only [readableBytes_eq h, hsum]
  split
  · exact ⟨h, .refl d, fun view hview => by cases hview⟩
  · rename_i hge
    have hlen := length_unread h
    have hread := h.read
    have hroom := h.room
    have hlt := h.lt_size
    have hoff : addSize d.readOffset d.pendingMetadataSize.toNat =
        d.readOffset + d.pendingMetadataSize.toNat := addSize_eq (by omega)
    have hend : addSize (d.readOffset + d.pendingMetadataSize.toNat) d.pendingBodySize.toNat =
        d.readOffset + d.pendingMetadataSize.toNat + d.pendingBodySize.toNat :=
      addSize_eq (by omega)
    simp only [hoff, hend]
    refine ⟨⟨?_, hroom, h.limit⟩, ⟨rfl, rfl, rfl, rfl⟩, fun view hview => ?_⟩
    · show d.readOffset + d.pendingMetadataSize.toNat + d.pendingBodySize.toNat ≤ d.bufferSize
      omega
    · cases hview
      constructor
      · show d.readOffset + d.pendingMetadataSize.toNat ≤ d.bufferSize
        omega
      · show d.readOffset + d.pendingMetadataSize.toNat + d.pendingBodySize.toNat ≤ d.bufferSize
        omega

theorem nextView_safe (h : Sound d) : Sound d.nextView.1 ∧ Untouched d d.nextView.1 ∧
      ∀ view, d.nextView.2.2 = some view → Inside view d.bufferSize := by
  cases hst : d.state with
  | failed =>
    simp only [nextView, hst]
    exact ⟨h, .refl d, fun view hview => by cases hview⟩
  | readMetadata =>
    simp only [nextView, hst]
    exact readMetadata_safe h
  | readFixedHeader =>
    by_cases hlen : d.unread.length < 32
    · rw [nextView_short h hst hlen]
      exact ⟨h, .refl d, fun view hview => by cases hview⟩
    rcases nextView_header h hst (Nat.le_of_not_lt hlen) with
      ⟨header, m, b, -, hnext, hsound, -⟩ | ⟨d', hnext, hrej, -⟩
    · rw [hnext]
      obtain ⟨hs, hu, hin⟩ := readMetadata_safe hsound
      exact ⟨hs, { hu with }, hin⟩
    · rw [hnext]
      have hu : Untouched d d' := { hrej with }
      refine ⟨hu.sound h ?_, hu, fun view hview => by cases hview⟩
      rw [hrej.readOffset, hrej.bufferSize]
      exact h.read

/-! ## Feeding and reserving -/

theorem feed_safe (data : Input) (h : Sound d) (hp : d.preparedSize = 0) :
    Sound (d.feed data).1 ∧ (d.feed data).1.limits = d.limits ∧
      (d.feed data).1.preparedSize = 0 := by
  unfold feed
  split
  · exact ⟨h, rfl, hp⟩
  split
  · exact ⟨h, rfl, hp⟩
  cases data with
  | null size => exact ⟨h.fail _, rfl, hp⟩
  | bytes input =>
    obtain ⟨d', found, hroom, hs, hlimits, hprepared, hfound⟩ := makeRoom_cases input.length h hp
    dsimp only
    rw [hroom]
    cases found with
    | false => exact ⟨hs, hlimits, hprepared⟩
    | true => exact ⟨(append_spec hs hprepared (hfound rfl).2).1, hlimits, hprepared⟩

theorem feed_untouched {data : Input} (h : Sound d) (hdata : ∀ b bs, data ≠ .bytes (b :: bs)) :
    Sound (d.feed data).1 ∧ Untouched d (d.feed data).1 := by
  unfold feed
  split
  · exact ⟨h, .refl d⟩
  split
  · exact ⟨h, .refl d⟩
  · rename_i hsize
    cases data with
    | null size => exact ⟨h.fail _, ⟨rfl, rfl, rfl, rfl⟩⟩
    | bytes input =>
      cases input with
      | nil => exact absurd rfl hsize
      | cons b bs => exact absurd rfl (hdata b bs)

/-- The answers of `PrepareWritable`: it does not try, it fails to make room, or the area is behind
    the data. -/
theorem prepareWritable_cases (size : Nat) (h : Sound d) : d.prepareWritable size = (d, none) ∨
    d.preparedSize = 0 ∧ ∃ d', Sound d' ∧ d'.limits = d.limits ∧
      (d.prepareWritable size = (d', none) ∧ d'.preparedSize = 0 ∨
        d.prepareWritable size = (d', some d'.bufferSize) ∧ d'.preparedSize = size ∧ size ≠ 0 ∧
          d'.unread = d.unread) := by
  unfold prepareWritable
  by_cases hask : d.state = .failed ∨ size = 0 ∨ d.preparedSize ≠ 0
  · exact .inl (if_pos hask)
  rw [if_neg hask]
  simp only [not_or, not_not] at hask
  obtain ⟨-, hsize, hp⟩ := hask
  obtain ⟨d', found, hroom, hs, hlimits, hprepared, hfound⟩ := makeRoom_cases size h hp
  rw [hroom]
  refine .inr ⟨hp, ?_⟩
  cases found with
  | false => exact ⟨d', hs, hlimits, .inl ⟨rfl, hprepared⟩⟩
  | true =>
    obtain ⟨hunread, hcap⟩ := hfound rfl
    exact ⟨{ d' with preparedSize := size }, ⟨hs.read, hcap, hs.limit⟩, hlimits,
      .inr ⟨rfl, rfl, hsize, hunread⟩⟩

/-! ## The invariant -/

/-- The area is what is reserved: it starts where the data ends, and holds these bytes. -/
def Holds (d : FrameDecoder) : Option (Nat × Bytes) → Prop
  | none => d.preparedSize = 0
  | some (pointer, content) => d.preparedSize ≠ 0 ∧ pointer = d.bufferSize ∧
    (d.buffer.drop d.bufferSize).take d.preparedSize = content

variable {area : Option (Nat × Bytes)}

theorem Holds.untouched (h : Holds d area) (hu : Untouched d d') : Holds d' area := by
  cases area with
  | none => exact hu.prepared.trans h
  | some area =>
    unfold Holds
    rw [hu.prepared, hu.bufferSize, hu.buffer]
    exact h

theorem Holds.eq_none (h : Holds d area) (hp : d.preparedSize = 0) : area = none := by
  cases area with
  | none => rfl
  | some area => exact absurd hp h.1

theorem length_area {content : Bytes} (h : Sound d)
    (hc : (d.buffer.drop d.bufferSize).take d.preparedSize = content) :
    content.length = d.preparedSize := by
  have hroom := h.room
  rw [← hc, length_take, length_drop]
  omega

theorem commitWritable_spec {n : Nat} (h : Sound d) (hholds : Holds d area)
    (hok : d.commitWritable n = (d', .needMore)) :
    ∃ pointer content, area = some (pointer, content) ∧ n ≤ content.length ∧ Sound d' ∧
      d'.limits = d.limits ∧ d'.preparedSize = 0 ∧ d'.bufferSize = d.bufferSize + n ∧
      d'.buffer.take d'.bufferSize = d.buffer.take d.bufferSize ++ content.take n ∧
      d'.unread = d.unread ++ content.take n := by
  unfold commitWritable at hok
  split at hok
  · cases hok
  rename_i hprepared
  simp only [not_or, Nat.not_lt] at hprepared
  obtain ⟨hne, hle⟩ := hprepared
  cases area with
  | none => exact absurd hholds hne
  | some area =>
    obtain ⟨pointer, content⟩ := area
    obtain ⟨-, rfl, hc⟩ := hholds
    have hlen := length_area h hc
    have hroom := h.room
    have hlt := h.lt_size
    have hread := h.read
    have hadd : addSize d.bufferSize n = d.bufferSize + n := addSize_eq (by omega)
    have htake : d.buffer.take (d.bufferSize + n) = d.buffer.take d.bufferSize ++ content.take n := by
      rw [take_add, ← hc, take_take, Nat.min_eq_left hle]
    obtain ⟨rfl, -⟩ := Prod.mk.inj hok
    refine ⟨_, content, rfl, by omega, ⟨?_, ?_, h.limit⟩, rfl, rfl, hadd, ?_, ?_⟩
    · show d.readOffset ≤ addSize d.bufferSize n
      omega
    · show addSize d.bufferSize n + 0 ≤ d.buffer.length
      omega
    · show d.buffer.take (addSize d.bufferSize n) = _
      rw [hadd, htake]
    · show (d.buffer.take (addSize d.bufferSize n)).drop d.readOffset = _
      rw [hadd, htake, drop_append_of_le_length, unread]
      rw [length_take]
      omega

namespace Caller

/-- The offsets are in order, the buffer is within the constructor's limit, and the area is behind
    the data. -/
structure Safe (limits : FrameLimits) (s : Caller) : Prop where
  sound : s.decoder.Sound
  limits : s.decoder.limits = (make limits).limits
  area : Holds s.decoder s.area

variable {limits : FrameLimits} {s s' : Caller}

theorem safe_start (limits : FrameLimits) : Safe limits (start limits) where
  sound := ⟨Nat.le_refl _, Nat.le_refl _, Nat.zero_le _⟩
  limits := rfl
  area := rfl

theorem Safe.write {offset : Nat} {bs : Bytes} (h : Safe limits s)
    (hs : s.step (.write offset bs) = some s') :
    Safe limits s' ∧ s'.decoder.unread = s.decoder.unread := by
  obtain ⟨d, area⟩ := s
  obtain ⟨hsound, hlimits, harea⟩ := h
  dsimp only at hsound hlimits harea ⊢
  simp only [step] at hs
  split at hs
  · cases hs
  split at hs
  · rename_i hinside
    cases hs
    obtain ⟨hne, rfl, hc⟩ := harea
    have hlen := length_area hsound hc
    have hroom := hsound.room
    obtain ⟨k, rfl⟩ : ∃ k, offset = d.bufferSize + k := ⟨offset - d.bufferSize, by omega⟩
    have hw : (writeAt d.buffer (d.bufferSize + k) bs).length = d.buffer.length :=
      length_writeAt (by omega)
    refine ⟨⟨⟨hsound.read, ?_, ?_⟩, hlimits, hne, rfl, ?_⟩, ?_⟩
    · exact Nat.le_trans hroom (Nat.le_of_eq hw.symm)
    · exact Nat.le_trans (Nat.le_of_eq hw) hsound.limit
    · show ((writeAt d.buffer (d.bufferSize + k) bs).drop d.bufferSize).take d.preparedSize = _
      rw [drop_writeAt _ _ _ (by omega), take_writeAt_of_le (by omega), hc, Nat.add_sub_cancel_left]
      rw [length_drop]
      omega
    · show ((writeAt d.buffer (d.bufferSize + k) bs).take d.bufferSize).drop d.readOffset = _
      rw [take_writeAt_left (by omega) (by omega)]
      rfl
  · cases hs

theorem Safe.step {op : Op} (h : Safe limits s) (hok : s.Respects op) (hs : s.step op = some s') :
    Safe limits s' := by
  cases op with
  | write offset bs => exact (h.write hs).1
  | feed data =>
    cases hs
    by_cases hbytes : ∃ b bs, data = .bytes (b :: bs)
    · -- nothing is reserved here
      obtain ⟨b, bs, rfl⟩ := hbytes
      obtain ⟨hsound, hlimits, hprepared⟩ := feed_safe (.bytes (b :: bs)) h.sound hok
      refine ⟨hsound, hlimits.trans h.limits, ?_⟩
      rw [h.area.eq_none hok]
      exact hprepared
    · have hdata : ∀ b bs, data ≠ .bytes (b :: bs) := fun b bs heq => hbytes ⟨b, bs, heq⟩
      obtain ⟨hsound, hu⟩ := feed_untouched h.sound hdata
      exact ⟨hsound, hu.limits.trans h.limits, h.area.untouched hu⟩
  | prepareWritable size =>
    simp only [Caller.step] at hs
    rcases prepareWritable_cases size h.sound with
      hsame | ⟨hp, d', hsound, hlimits, ⟨hprep, hprepared⟩ | ⟨hprep, hprepared, hsize, -⟩⟩
    · rw [hsame] at hs
      cases hs
      exact { h with }
    · rw [hprep] at hs
      cases hs
      refine ⟨hsound, hlimits.trans h.limits, ?_⟩
      rw [h.area.eq_none hp]
      exact hprepared
    · rw [hprep] at hs
      cases hs
      refine ⟨hsound, hlimits.trans h.limits, ?_, rfl, ?_⟩
      · rw [hprepared]
        exact hsize
      · rw [hprepared]
  | commitWritable n =>
    cases hs
    by_cases hbad : s.decoder.preparedSize = 0 ∨ n > s.decoder.preparedSize
    · have hfail : (s.decoder.apply (.commitWritable n)).1 =
          { s.decoder.fail "invalid decoder write commit" with preparedSize := 0 } := by
        show (s.decoder.commitWritable n).1 = _
        rw [commitWritable, if_pos hbad]
      have hroom := h.sound.room
      rw [hfail]
      exact ⟨⟨h.sound.read, Nat.le_trans (Nat.le_add_right _ _) hroom, h.sound.limit⟩, h.limits, rfl⟩
    · have hcommit : s.decoder.commitWritable n =
          ((s.decoder.apply (.commitWritable n)).1, .needMore) := by
        refine Prod.ext rfl ?_
        rw [commitWritable, if_neg hbad]
      obtain ⟨-, -, -, -, hsound, hlimits, hprepared, -⟩ :=
        commitWritable_spec h.sound h.area hcommit
      exact ⟨hsound, hlimits.trans h.limits, hprepared⟩
  | next | nextView =>
    cases hs
    obtain ⟨hsound, hu, -⟩ := nextView_safe h.sound
    exact ⟨hsound, hu.limits.trans h.limits, h.area.untouched hu⟩
  | reset =>
    cases hs
    exact ⟨⟨Nat.le_refl _, Nat.zero_le _, h.sound.limit⟩, h.limits, rfl⟩

theorem safe_of_reaches (h : Reaches Caller.step Respects (start limits) s) : Safe limits s :=
  h.invariant (p := Safe limits) (safe_start limits) fun _ _ _ hs hok hstep => hs.step hok hstep

/-- **The buffer is safe under every order of calls** in which no bytes are fed while an area is
    out. In every state reached:

    * the offsets are in order, so that none of the subtractions wraps, and what is reserved is
      inside the buffer, which is within the limit of the constructor;
    * every view that `NextView` returns lies in the data;
    * a `CommitWritable(n)` that succeeds appends the first `n` bytes of the area to the data;
    * neither giving out an area nor the caller's writes into it change the data. -/
theorem buffer_safe (limits : FrameLimits) (h : Reaches Caller.step Respects (start limits) s) :
    (s.decoder.readOffset ≤ s.decoder.bufferSize ∧
      s.decoder.bufferSize + s.decoder.preparedSize ≤ s.decoder.buffer.length ∧
      s.decoder.buffer.length ≤ (make limits).limits.maxBufferSize.toNat) ∧
    (∀ view, s.decoder.nextView.2.2 = some view → Inside view s.decoder.nextView.1.bufferSize) ∧
    (∀ n d', s.decoder.commitWritable n = (d', .needMore) →
      ∃ pointer content, s.area = some (pointer, content) ∧ n ≤ content.length ∧
        d'.buffer.take d'.bufferSize =
          s.decoder.buffer.take s.decoder.bufferSize ++ content.take n ∧
        d'.unread = s.decoder.unread ++ content.take n) ∧
    (∀ size d' pointer, s.decoder.prepareWritable size = (d', some pointer) →
      d'.unread = s.decoder.unread) ∧
    ∀ offset bs s', s.step (.write offset bs) = some s' → s'.decoder.unread = s.decoder.unread := by
  have hsafe := safe_of_reaches h
  refine ⟨⟨hsafe.sound.read, hsafe.sound.room, hsafe.limits ▸ hsafe.sound.limit⟩,
    fun view hview => ?_, fun n d' hcommit => ?_, fun size d' pointer hprep => ?_,
    fun offset bs s' hs => (hsafe.write hs).2⟩
  · obtain ⟨-, hu, hin⟩ := nextView_safe hsafe.sound
    rw [hu.bufferSize]
    exact hin view hview
  · obtain ⟨pointer, content, harea, hle, -, -, -, -, htake, hunread⟩ :=
      commitWritable_spec hsafe.sound hsafe.area hcommit
    exact ⟨pointer, content, harea, hle, htake, hunread⟩
  · rcases prepareWritable_cases size hsafe.sound with
      hsame | ⟨-, e, -, -, ⟨hnone, -⟩ | ⟨hsome, -, -, hunread⟩⟩
    · rw [hsame] at hprep
      cases hprep
    · rw [hnone] at hprep
      cases hprep
    · rw [hsome] at hprep
      obtain ⟨rfl, -⟩ := Prod.mk.inj hprep
      exact hunread

/-- An area of four bytes is written in two pieces, out of order, with a `NextView` in between;
    three bytes of it are committed behind the byte that was there. -/
theorem buffer_safe_pieces : ∃ s d', Reaches Caller.step Respects (start ⟨0, 0, 0⟩) s ∧
      s.decoder.commitWritable 3 = (d', .needMore) ∧ d'.unread = [9, 1, 2, 3] := by
  obtain ⟨s, hreach, harea, hunread, hok⟩ : ∃ s, Reaches Caller.step Respects (start ⟨0, 0, 0⟩) s ∧
      s.area = some (1, [1, 2, 3, 4]) ∧ s.decoder.unread = [9] ∧
      (s.decoder.commitWritable 3).2 = .needMore :=
    exists_reaches_of_exec [.feed (.bytes [9]), .prepareWritable 4, .write 3 [3, 4], .nextView,
      .write 1 [1, 2]] (by decide +kernel) fun _ _ hs => hs
  have hcommit : s.decoder.commitWritable 3 = ((s.decoder.commitWritable 3).1, .needMore) :=
    Prod.ext rfl hok
  obtain ⟨pointer, content, hcontent, -, -, happended⟩ :=
    (buffer_safe ⟨0, 0, 0⟩ hreach).2.2.1 3 _ hcommit
  refine ⟨s, _, hreach, hcommit, ?_⟩
  rw [harea] at hcontent
  obtain ⟨-, rfl⟩ := Prod.mk.inj (Option.some.inj hcontent)
  rw [happended, hunread]
  rfl

/-- A byte is fed while all 32 bytes of the buffer are reserved; the commit of what was reserved
    then succeeds, and `buffer_size_` is beyond the buffer's end. -/
theorem commit_past_capacity : ∃ s, Reachable Caller.step (start ⟨0, 0, 0⟩) s ∧
      s.decoder.buffer.length < s.decoder.bufferSize + s.decoder.preparedSize ∧
      ∃ d', s.decoder.commitWritable 32 = (d', .needMore) ∧ d'.buffer.length < d'.bufferSize := by
  refine exists_reaches_of_exec
      (p := fun s => s.decoder.buffer.length < s.decoder.bufferSize + s.decoder.preparedSize ∧
      (s.decoder.commitWritable 32).2 = .needMore ∧
      (s.decoder.commitWritable 32).1.buffer.length < (s.decoder.commitWritable 32).1.bufferSize)
    [.prepareWritable 32, .feed (.bytes [1])] (by decide +kernel) fun s hreach hs => ?_
  obtain ⟨hover, hok, hpast⟩ := hs
  exact ⟨hover, _, Prod.ext rfl hok, hpast⟩

end Caller

end FrameDecoder
end CoroRpc.Protocol
