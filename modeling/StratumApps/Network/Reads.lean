import StratumApps.Network.ReadHalf

open Sv2

namespace Network

variable {σ φ ε : Type}

-- What a result of the decoder is to the caller. Missing bytes are none.
def Decoded.result : Decoded φ ε → Option (Except (ReadError ε) φ)
  | .frame f      => some (.ok f)
  | .missingBytes => none
  | .error e      => some (.error (.codecError e))

def Poll.returned : Poll φ ε → List (Except (ReadError ε) φ)
  | .pending _ => []
  | .ready r   => [r]

namespace NoiseTcpReadHalf

variable {D : Decoder σ φ ε} {d : σ} {consumed bytes : Bytes} {half : NoiseTcpReadHalf σ}

-- The half is where the decoding of the bytes that have been read is: its decoder is in the state
-- after the full buffers, and its buffer begins with the bytes that are too few for another one.
structure Follows (D : Decoder σ φ ε) (d : σ) (consumed : Bytes) (half : NoiseTcpReadHalf σ) :
    Prop where
  decoder : half.decoder = (D.run d consumed).state
  front   : half.currentFrameBuf.take half.bytesRead = (D.run d consumed).rest
  read    : half.bytesRead = (D.run d consumed).rest.length
  length  : half.bytesRead ≠ 0 → half.currentFrameBuf.length = half.writableLen D

theorem Follows.room (h : half.Follows D d consumed) : half.bytesRead < half.writableLen D := by
  rw [h.read, writableLen, h.decoder]
  exact Consumer.run_rest_lt

theorem resize_length : (half.resize D).currentFrameBuf.length = half.writableLen D := by
  rw [resize]
  split
  case isTrue h => exact h
  case isFalse  =>
    simp
    omega

theorem resize_decoder : (half.resize D).decoder = half.decoder := by
  rw [resize]
  split <;> rfl

theorem resize_full : (half.resize D).currentFrameBuf.length = (half.resize D).writableLen D := by
  rw [resize_length, writableLen, writableLen, resize_decoder]

theorem Follows.resize (h : half.Follows D d consumed) : (half.resize D).Follows D d consumed := by
  by_cases hl : half.currentFrameBuf.length = half.writableLen D
  case pos =>
    rw [NoiseTcpReadHalf.resize, if_pos hl]
    exact h
  case neg =>
    have hz : half.bytesRead = 0 := by
      by_contra hz
      exact hl (h.length hz)
    have hr : (D.run d consumed).rest = [] := List.length_eq_zero_iff.mp (h.read ▸ hz)
    rw [NoiseTcpReadHalf.resize, if_neg hl]
    exact ⟨h.decoder, by simp [hr], by simp [hr], by simp⟩

theorem fill_length (hb : half.bytesRead + bytes.length ≤ half.currentFrameBuf.length) :
    (half.fill bytes).currentFrameBuf.length = half.currentFrameBuf.length := by
  simp only [NoiseTcpReadHalf.fill, List.length_append, List.length_take, List.length_drop]
  omega

theorem Follows.take_fill (h : half.Follows D d consumed)
    (hb : half.bytesRead + bytes.length ≤ half.currentFrameBuf.length) :
    (half.fill bytes).currentFrameBuf.take (half.fill bytes).bytesRead =
      (D.run d consumed).rest ++ bytes := by
  have hl : (half.currentFrameBuf.take half.bytesRead ++ bytes).length =
      half.bytesRead + bytes.length := by
    rw [List.length_append, List.length_take, Nat.min_eq_left (by omega)]
  simp only [NoiseTcpReadHalf.fill]
  rw [List.take_left' hl, h.front]

-- A read goes on with the bytes that are too few, and fills the buffer when they are enough.
theorem Follows.fill (h : half.Follows D d consumed)
    (hl : half.currentFrameBuf.length = half.writableLen D)
    (hb : half.bytesRead + bytes.length ≤ half.currentFrameBuf.length) :
    let half' := half.fill bytes
    (half'.bytesRead < half'.writableLen D ∧ half'.Follows D d (consumed ++ bytes) ∧
      half'.currentFrameBuf.length = half'.writableLen D ∧
      (D.run d (consumed ++ bytes)).results = (D.run d consumed).results) ∨
    (¬half'.bytesRead < half'.writableLen D ∧ (half'.nextFrame D).2.Follows D d (consumed ++ bytes) ∧
      (D.run d (consumed ++ bytes)).results =
        (D.run d consumed).results ++ [(half'.nextFrame D).1]) := by
  intro half'
  have hr : half'.bytesRead = ((D.run d consumed).rest ++ bytes).length := by
    rw [List.length_append, ← h.read]
    rfl
  have hw : half'.writableLen D = D.demand (D.run d consumed).state := by
    rw [← h.decoder]
    rfl
  have hl' : half'.currentFrameBuf.length = half'.writableLen D := (fill_length hb).trans hl
  have ht : half'.currentFrameBuf.take half'.bytesRead = (D.run d consumed).rest ++ bytes :=
    h.take_fill hb
  rw [Consumer.run_append]
  rcases Nat.lt_or_ge half'.bytesRead (half'.writableLen D) with hlt | hge
  case inl =>
    have hs : D.run (D.run d consumed).state ((D.run d consumed).rest ++ bytes) = _ :=
      Consumer.run_short (by rw [← hr, ← hw]; exact hlt)
    refine .inl ⟨hlt, ⟨?_, ?_, ?_, fun _ => hl'⟩, hl', ?_⟩
    · rw [Consumer.run_append, hs]
      exact h.decoder
    · rw [Consumer.run_append, hs]
      exact ht
    · rw [Consumer.run_append, hs]
      exact hr
    · rw [hs]
      exact List.append_nil _
  case inr =>
    have hle : half'.bytesRead ≤ half'.writableLen D := hl' ▸ (fill_length hb).symm ▸ hb
    have hs : D.run (D.run d consumed).state ((D.run d consumed).rest ++ bytes) = _ :=
      Consumer.run_exact (by rw [← hr, ← hw]; omega)
    have hf : half'.currentFrameBuf = (D.run d consumed).rest ++ bytes := by
      rw [← ht, List.take_of_length_le (by omega)]
    have hn : half'.nextFrame D = ((D.consume (D.run d consumed).state
        ((D.run d consumed).rest ++ bytes)).1, { half' with
          decoder   := (D.consume (D.run d consumed).state ((D.run d consumed).rest ++ bytes)).2
          bytesRead := 0 }) := by
      rw [nextFrame, hf, ← h.decoder]
      rfl
    rw [hn, hs]
    refine .inr ⟨Nat.not_lt.mpr hge, ⟨?_, ?_, ?_, fun hz => absurd rfl hz⟩, rfl⟩
    · rw [Consumer.run_append, hs]
      rfl
    · rw [Consumer.run_append, hs]
      rfl
    · rw [Consumer.run_append, hs]
      rfl

theorem Follows.readLoop_fill (h : half.Follows D d consumed)
    (hl : half.currentFrameBuf.length = half.writableLen D)
    (hb : half.bytesRead + bytes.length ≤ half.currentFrameBuf.length) :
    ((half.fill bytes).readLoop D).2.Follows D d (consumed ++ bytes) ∧
    (((half.fill bytes).readLoop D).1 = .pending .read →
      ((half.fill bytes).readLoop D).2.currentFrameBuf.length =
        ((half.fill bytes).readLoop D).2.writableLen D) ∧
    (D.run d (consumed ++ bytes)).results.filterMap Decoded.result =
      (D.run d consumed).results.filterMap Decoded.result ++
        ((half.fill bytes).readLoop D).1.returned := by
  rw [readLoop]
  obtain ⟨hlt, hf, hl', hr⟩ | ⟨hlt, hf, hr⟩ := h.fill hl hb
  case inl =>
    rw [if_pos hlt]
    exact ⟨hf, fun _ => hl', by simp [hr, Poll.returned]⟩
  case inr =>
    rw [if_neg hlt, hr, List.filterMap_append]
    generalize (half.fill bytes).nextFrame D = r at hf ⊢
    obtain ⟨decoded, half'⟩ := r
    cases decoded with
    | frame f      => exact ⟨hf, by simp, rfl⟩
    | missingBytes => exact ⟨hf, by simp, rfl⟩
    | error e      => exact ⟨hf, by simp, rfl⟩

theorem Follows.readFrame (h : half.Follows D d consumed) :
    half.readFrame D = (.pending .read, half.resize D) := by
  rw [NoiseTcpReadHalf.readFrame, readLoop, if_pos h.resize.room]

def triedResult : Except (ReadError ε) (Option φ) → List (Except (ReadError ε) φ)
  | .ok none     => []
  | .ok (some f) => [.ok f]
  | .error e     => [.error e]

theorem Follows.tryReadFrame (h : half.Follows D d consumed)
    (hb : (half.resize D).bytesRead + bytes.length ≤ (half.resize D).currentFrameBuf.length) :
    (half.tryReadFrame D bytes).2.Follows D d (consumed ++ bytes) ∧
    (D.run d (consumed ++ bytes)).results.filterMap Decoded.result =
      (D.run d consumed).results.filterMap Decoded.result ++
        triedResult (half.tryReadFrame D bytes).1 := by
  simp only [NoiseTcpReadHalf.tryReadFrame]
  obtain ⟨hlt, hf, _, hr⟩ | ⟨hlt, hf, hr⟩ := h.resize.fill resize_full hb
  case inl =>
    rw [if_pos hlt]
    exact ⟨hf, by simp [hr, triedResult]⟩
  case inr =>
    rw [if_neg hlt, hr, List.filterMap_append]
    generalize ((half.resize D).fill bytes).nextFrame D = r at hf ⊢
    obtain ⟨decoded, half'⟩ := r
    cases decoded with
    | frame f      => exact ⟨hf, rfl⟩
    | missingBytes => exact ⟨hf, rfl⟩
    | error e      => exact ⟨hf, rfl⟩

end NoiseTcpReadHalf

namespace Reader

variable {D : Decoder σ φ ε} {d : σ} {s s' : Reader σ φ ε} {a : ReadAction}

-- What the decoding of a string of bytes at once gives, frames and errors of the decoder in order.
def decodeAll (D : Decoder σ φ ε) (d : σ) (bytes : Bytes) : List (Except (ReadError ε) φ) :=
  (D.run d bytes).results.filterMap Decoded.result

def isDecoded : Except (ReadError ε) φ → Bool
  | .error .socketClosed => false
  | _                    => true

-- What the calls have returned, but for the end of the socket.
def decoded (s : Reader σ φ ε) : List (Except (ReadError ε) φ) :=
  s.returned.filter isDecoded

structure Synced (D : Decoder σ φ ε) (d : σ) (s : Reader σ φ ε) : Prop where
  half    : s.half.Follows D d s.consumed
  reading : s.call = some .read → s.half.currentFrameBuf.length = s.half.writableLen D
  decoded : s.decoded = decodeAll D d s.consumed

theorem start_synced : (start d : Reader σ φ ε).Synced D d where
  half    := ⟨by simp [start, NoiseTcpReadHalf.new, Consumer.run_nil],
    by simp [start, NoiseTcpReadHalf.new, Consumer.run_nil],
    by simp [start, NoiseTcpReadHalf.new, Consumer.run_nil], fun h => absurd rfl h⟩
  reading := by simp [start]
  decoded := by simp [start, Reader.decoded, decodeAll, Consumer.run_nil]

theorem filter_decodeAll {bytes : Bytes} :
    (decodeAll D d bytes).filter isDecoded = decodeAll D d bytes := by
  rw [List.filter_eq_self]
  intro r hr
  obtain ⟨decoded, _, hd⟩ := List.mem_filterMap.mp hr
  cases decoded <;> cases hd <;> rfl

theorem decoded_append {rs : List (Except (ReadError ε) φ)} {bytes : Bytes}
    (h : s.decoded = decodeAll D d s.consumed)
    (hr : decodeAll D d (s.consumed ++ bytes) = decodeAll D d s.consumed ++ rs) :
    (s.returned ++ rs).filter isDecoded = decodeAll D d (s.consumed ++ bytes) := by
  rw [List.filter_append, ← filter_decodeAll, hr, List.filter_append, filter_decodeAll, ← h]
  rfl

theorem decoded_socketClosed :
    (s.returned ++ [(.error .socketClosed : Except (ReadError ε) φ)]).filter isDecoded =
      s.decoded := by
  simp [isDecoded, Reader.decoded]

theorem settle_eq {p : Poll φ ε} {half : NoiseTcpReadHalf σ} :
    s.settle (p, half) = { s with
      half     := half
      call     := match p with
        | .pending a => some a
        | .ready _   => none
      returned := s.returned ++ p.returned } := by
  cases p <;> simp [settle, Poll.returned]

theorem settleTry_eq {r : Except (ReadError ε) (Option φ)} {half : NoiseTcpReadHalf σ} :
    s.settleTry (r, half) = { s with
      half     := half
      returned := s.returned ++ NoiseTcpReadHalf.triedResult r } := by
  rcases r with e | _ | f <;> simp [settleTry, NoiseTcpReadHalf.triedResult]

theorem Synced.readFrame (hs : s.Synced D d) : (s.settle (s.half.readFrame D)).Synced D d := by
  rw [hs.half.readFrame]
  exact ⟨hs.half.resize, fun _ => NoiseTcpReadHalf.resize_full, hs.decoded⟩

theorem Synced.polled {r : SocketRead} (hs : s.Synced D d) (hc : s.call = some .read)
    (hg : s.Gives s.half r) : (s.polled D r).Synced D d := by
  cases r with
  | bytes n =>
    have hn : (s.arrived.take n).length = n := List.length_take_of_le hg.right.left
    have hb : s.half.bytesRead + (s.arrived.take n).length ≤ s.half.currentFrameBuf.length :=
      hn.symm ▸ hg.right.right
    obtain ⟨hf, hl, hr⟩ := hs.half.readLoop_fill (hs.reading hc) hb
    rw [Reader.polled, ← Prod.mk.eta (p := (s.half.fill (s.arrived.take n)).readLoop D), settle_eq]
    refine ⟨hf, fun hp => hl ?_, decoded_append hs.decoded hr⟩
    split at hp
    case h_1 a hq =>
      cases hp
      exact hq
    case h_2 => cases hp
  | closed  => exact ⟨hs.half, by simp [Reader.polled, settle], decoded_socketClosed.trans hs.decoded⟩
  | error   => exact ⟨hs.half, by simp [Reader.polled, settle], decoded_socketClosed.trans hs.decoded⟩

theorem Synced.tried {r : SocketRead} (hs : s.Synced D d) (hc : s.call = none)
    (hg : s.Gives (s.half.resize D) r) : (s.tried D r).Synced D d := by
  cases r with
  | bytes n =>
    have hn : (s.arrived.take n).length = n := List.length_take_of_le hg.right.left
    obtain ⟨hf, hr⟩ := hs.half.tryReadFrame (hn.symm ▸ hg.right.right)
    rw [Reader.tried, ← Prod.mk.eta (p := s.half.tryReadFrame D (s.arrived.take n)), settleTry_eq]
    exact ⟨hf, by simp [take, hc], decoded_append hs.decoded hr⟩
  | closed  =>
    exact ⟨hs.half.resize, by simp [Reader.tried, settleTry, hc],
      decoded_socketClosed.trans hs.decoded⟩
  | error   =>
    exact ⟨hs.half.resize, by simp [Reader.tried, settleTry, hc],
      decoded_socketClosed.trans hs.decoded⟩

-- What a step does: bytes arrive, the peer closes, a call goes on from the start of its loop, from a
-- read or not at all, or one that does not block has nothing to read, or something.
theorem step_cases (h : s.step D a = some s') :
    (∃ bytes, a = .arrive bytes ∧ s' = { s with arrived := s.arrived ++ bytes }) ∨
    a.arriving = [] ∧
      (s' = { s with closed := true } ∨
      s' = s.settle (s.half.readFrame D) ∨
      (∃ r, s.call = some .read ∧ s.Gives s.half r ∧ s' = s.polled D r) ∨
      s' = { s with call := none } ∨
      (s.call = none ∧ s' = { s with half := s.half.resize D }) ∨
      (∃ r, s.call = none ∧ s.Gives (s.half.resize D) r ∧ s' = s.tried D r)) := by
  cases a with
  | arrive bytes   =>
    simp only [Reader.step, Option.ite_none_left_eq_some, Option.some_inj] at h
    exact .inl ⟨bytes, rfl, h.right.symm⟩
  | close          =>
    cases h
    exact .inr ⟨rfl, .inl rfl⟩
  | readFrame      =>
    simp only [Reader.step, Option.ite_none_right_eq_some, Option.some_inj] at h
    exact .inr ⟨rfl, .inr <| .inl h.right.symm⟩
  | poll r         =>
    simp only [Reader.step, Option.ite_none_right_eq_some, Option.some_inj] at h
    obtain ⟨⟨hc, hg⟩, rfl⟩ := h
    exact .inr ⟨rfl, .inr <| .inr <| .inl ⟨r, hc, hg, rfl⟩⟩
  | resume         =>
    simp only [Reader.step, Option.ite_none_right_eq_some, Option.some_inj] at h
    exact .inr ⟨rfl, .inr <| .inl h.right.symm⟩
  | cancel         =>
    simp only [Reader.step, Option.ite_none_right_eq_some, Option.some_inj] at h
    exact .inr ⟨rfl, .inr <| .inr <| .inr <| .inl h.right.symm⟩
  | tryReadFrame r =>
    cases r with
    | none   =>
      simp only [Reader.step, Option.ite_none_right_eq_some, Option.some_inj] at h
      exact .inr ⟨rfl, .inr <| .inr <| .inr <| .inr <| .inl ⟨h.left, h.right.symm⟩⟩
    | some r =>
      simp only [Reader.step, Option.ite_none_right_eq_some, Option.some_inj] at h
      obtain ⟨⟨hc, hg⟩, rfl⟩ := h
      exact .inr ⟨rfl, .inr <| .inr <| .inr <| .inr <| .inr ⟨r, hc, hg, rfl⟩⟩

theorem Synced.step (hs : s.Synced D d) (h : s.step D a = some s') : s'.Synced D d := by
  obtain ⟨_, rfl, rfl⟩ | ⟨_, rfl | rfl | ⟨r, hc, hg, rfl⟩ | rfl | ⟨hc, rfl⟩ | ⟨r, hc, hg, rfl⟩⟩ :=
    step_cases h
  · exact ⟨hs.half, hs.reading, hs.decoded⟩
  · exact ⟨hs.half, hs.reading, hs.decoded⟩
  · exact hs.readFrame
  · exact hs.polled hc hg
  · exact ⟨hs.half, by simp, hs.decoded⟩
  · exact ⟨hs.half.resize, by simp [hc], hs.decoded⟩
  · exact hs.tried hc hg

open Machine (Event)

theorem settle_bytes {x : Poll φ ε × NoiseTcpReadHalf σ} :
    (s.settle x).consumed = s.consumed ∧ (s.settle x).arrived = s.arrived := by
  obtain ⟨p, half⟩ := x
  rw [settle_eq]
  exact ⟨rfl, rfl⟩

theorem settleTry_bytes {x : Except (ReadError ε) (Option φ) × NoiseTcpReadHalf σ} :
    (s.settleTry x).consumed = s.consumed ∧ (s.settleTry x).arrived = s.arrived := by
  obtain ⟨r, half⟩ := x
  rw [settleTry_eq]
  exact ⟨rfl, rfl⟩

theorem take_bytes {n : ℕ} : (s.take n).consumed ++ (s.take n).arrived = s.consumed ++ s.arrived := by
  rw [take, List.append_assoc, List.take_append_drop]

theorem polled_bytes {r : SocketRead} :
    (s.polled D r).consumed ++ (s.polled D r).arrived = s.consumed ++ s.arrived := by
  cases r <;> simp only [polled, settle_bytes, take_bytes]

theorem tried_bytes {r : SocketRead} :
    (s.tried D r).consumed ++ (s.tried D r).arrived = s.consumed ++ s.arrived := by
  cases r <;> simp only [tried, settleTry_bytes, take_bytes]

-- No step loses or doubles a byte between the socket and the half.
theorem step_bytes (h : s.step D a = some s') :
    s'.consumed ++ s'.arrived = s.consumed ++ s.arrived ++ a.arriving := by
  obtain ⟨_, rfl, rfl⟩ | ⟨ha, rfl | rfl | ⟨r, _, _, rfl⟩ | rfl | ⟨_, rfl⟩ | ⟨r, _, _, rfl⟩⟩ :=
    step_cases h
  case inl => exact (List.append_assoc _ _ _).symm
  all_goals rw [ha, List.append_nil]
  · rw [settle_bytes.left, settle_bytes.right]
  · exact polled_bytes
  · exact tried_bytes

theorem settle_readFrame (hs : s.Synced D d) : s.settle (s.half.readFrame D) =
    { s with half := s.half.resize D, call := some .read } := by
  rw [hs.half.readFrame]
  rfl

-- A call that waits for bytes can be given one when one has arrived.
theorem Synced.gives (hs : s.Synced D d) (hc : s.call = some .read) (ha : s.arrived ≠ []) :
    s.Gives s.half (.bytes 1) := by
  refine ⟨Nat.one_pos, List.length_pos_iff.mpr ha, ?_⟩
  rw [hs.reading hc]
  exact hs.half.room

-- The bytes that a call of `read_frame` is given are read, and it returns what comes of them.
theorem Synced.poll {n : ℕ} (hs : s.Synced D d) (hc : s.call = some .read)
    (hg : s.Gives s.half (.bytes n)) : ∃ s', s.step D (.poll (.bytes n)) = some s' ∧
      s'.consumed = s.consumed ++ s.arrived.take n ∧ s'.arrived = s.arrived.drop n ∧
      s'.decoded = decodeAll D d s'.consumed := by
  have hb : (s.polled D (.bytes n)).consumed = s.consumed ++ s.arrived.take n ∧
      (s.polled D (.bytes n)).arrived = s.arrived.drop n := settle_bytes
  exact ⟨_, if_pos ⟨hc, hg⟩, hb.left, hb.right, (hs.polled hc hg).decoded⟩

-- The steps that calls of `read_frame` can still take until they wait with nothing left to read.
def reads (s : Reader σ φ ε) : ℕ :=
  2 * s.arrived.length + if s.call = some .read then 0 else 1

theorem Synced.reads_lt (hs : s.Synced D d) (ha : a.Reads) (h : s.step D a = some s') :
    s'.reads < s.reads := by
  -- A call that has begun, or has let others run, waits for bytes.
  have hw (hc : s.call ≠ some .read) : (s.settle (s.half.readFrame D)).reads < s.reads := by
    rw [settle_readFrame hs, reads, reads, if_pos rfl, if_neg hc]
    exact Nat.lt_succ_self _
  cases a with
  | readFrame =>
    simp only [Reader.step, Option.ite_none_right_eq_some, Option.some_inj] at h
    obtain ⟨hc, rfl⟩ := h
    exact hw (by simp [hc])
  | resume    =>
    simp only [Reader.step, Option.ite_none_right_eq_some, Option.some_inj] at h
    obtain ⟨hc, rfl⟩ := h
    exact hw (by simp [hc])
  | poll r    =>
    cases r with
    | bytes n =>
      simp only [Reader.step, Option.ite_none_right_eq_some] at h
      obtain ⟨⟨hc, hg⟩, h⟩ := h
      obtain ⟨s₁, h₁, _, hb, _⟩ := hs.poll hc hg
      rw [Reader.step, if_pos ⟨hc, hg⟩] at h₁
      cases Option.some_inj.mp (h₁.symm.trans h)
      have hn : 0 < n ∧ n ≤ s.arrived.length := ⟨hg.left, hg.right.left⟩
      rw [reads, reads, if_pos hc, hb, List.length_drop]
      split_ifs <;> omega
    | _       => cases ha
  | _         => cases ha

-- Calls of `read_frame` take no more steps than there are, whatever the reads give them.
theorem Synced.length_le {tr : List (Event (Reader σ φ ε) ReadAction)} (hs : s.Synced D d)
    (p : (machine D d).Path s tr s') (hr : Machine.Along (fun _ a => a.Reads) tr) :
    tr.length ≤ s.reads := by
  have hstep (s : Reader σ φ ε) (a : ReadAction) (s' : Reader σ φ ε) (n : ℕ)
      (hs : s.Synced D d ∧ s.reads ≤ n) (ha : a.Reads) (h : s.step D a = some s') :
      False ∨ ∃ n', (s'.Synced D d ∧ s'.reads ≤ n') ∧ n' + true.toNat ≤ n :=
    .inr ⟨s'.reads, ⟨hs.left.step h, Nat.le_refl _⟩,
      Nat.lt_of_lt_of_le (hs.left.reads_lt ha h) hs.right⟩
  have h := p.ranked (G := fun _ => False) hstep hr ⟨hs, Nat.le_refl _⟩
  obtain ⟨_, _, hf⟩ | ⟨n, _, hn⟩ := h
  · exact hf.elim
  · rw [List.countP_true] at hn
    exact Nat.le_of_add_left_le hn

theorem Synced.path {tr : List (Event (Reader σ φ ε) ReadAction)} (hs : s.Synced D d)
    (p : (machine D d).Path s tr s') : s'.Synced D d :=
  p.invariant (C := fun _ _ => True) (fun _ _ _ hs _ h => hs.step h) (fun _ _ => trivial) hs

namespace Sample

-- Frames of a byte that says how many follow it, and of these.
def consume : Option ℕ → Bytes → Decoded Bytes Empty × Option ℕ
  | none, bytes   =>
    match bytes with
    | []     => (.missingBytes, none)
    | b :: _ => if b = 0 then (.frame [], none) else (.missingBytes, some b.toNat)
  | some _, bytes => (.frame bytes, none)

def decoder : Decoder (Option ℕ) Bytes Empty where
  demand n     := max 1 (n.getD 1)
  demand_pos _ := Nat.le_max_left _ _
  consume      := consume

-- Calls are cancelled where they wait for bytes, with a part of a frame in the buffer, and where they
-- let others run.
def cancelled : List ReadAction := [
  .arrive [2, 7], .readFrame, .poll (.bytes 1), .cancel, .tryReadFrame (some (.bytes 1)), .readFrame,
  .arrive [8, 1, 9], .cancel, .readFrame, .poll (.bytes 1), .tryReadFrame none, .readFrame,
  .poll (.bytes 1), .resume, .poll (.bytes 1)]

end Sample

end Reader

end Network
