import StratumApps.Network.WriteHalf

open Sv2

namespace Network

variable {σ φ ε : Type}

-- The encodings of frames by a cipher that goes on from one to the next, as the peer's cipher does.
def encodeAll (E : Encoder σ φ ε) : σ → List φ → Option (Bytes × σ)
  | c, []      => some ([], c)
  | c, f :: fs =>
    match E.encode c f with
    | (.error _, _)  => none
    | (.ok buf, c')  => (encodeAll E c' fs).map fun r => (buf ++ r.1, r.2)

variable {E : Encoder σ φ ε} {c c' : σ} {f : φ} {fs : List φ} {buf bytes : Bytes}

theorem encodeAll_concat (h : encodeAll E c fs = some (bytes, c')) :
    encodeAll E c (fs ++ [f]) = match E.encode c' f with
      | (.error _, _)   => none
      | (.ok buf, c'')  => some (bytes ++ buf, c'') := by
  induction fs generalizing c bytes with
  | nil          =>
    simp only [encodeAll, Option.some_inj, Prod.mk.injEq] at h
    obtain ⟨rfl, rfl⟩ := h
    rw [List.nil_append, encodeAll]
    cases hE : E.encode c f with
    | mk r c'' => cases r <;> simp [encodeAll]
  | cons f' fs ih =>
    rw [encodeAll] at h
    rw [List.cons_append, encodeAll]
    cases hE : E.encode c f' with
    | mk r c'' =>
      rw [hE] at h
      cases r with
      | error e => cases h
      | ok buf  =>
        obtain ⟨r, hr, heq⟩ := Option.map_eq_some_iff.mp h
        cases heq
        simp only [ih hr]
        cases E.encode r.2 f with
        | mk r' c₃ => cases r' <;> simp

-- What a cipher encodes is read back by the one of the peer, which goes on as it does.
def Decodes (E : Encoder σ φ ε) (decode : σ → Bytes → Option (φ × σ × Bytes)) : Prop :=
  ∀ c f buf c' rest, E.encode c f = (.ok buf, c') → decode c (buf ++ rest) = some (f, c', rest)

-- The peer, which takes one frame after the other off the wire.
def decodeMany (decode : σ → Bytes → Option (φ × σ × Bytes)) :
    ℕ → σ → Bytes → Option (List φ × Bytes)
  | 0, _, bytes     => some ([], bytes)
  | n + 1, c, bytes => do
    let (f, c, bytes) ← decode c bytes
    let (fs, bytes) ← decodeMany decode n c bytes
    return (f :: fs, bytes)

theorem decodeMany_encodeAll {decode : σ → Bytes → Option (φ × σ × Bytes)} {rest : Bytes}
    (hd : Decodes E decode) (h : encodeAll E c fs = some (bytes, c')) :
    decodeMany decode fs.length c (bytes ++ rest) = some (fs, rest) := by
  induction fs generalizing c bytes with
  | nil       =>
    simp only [encodeAll, Option.some_inj, Prod.mk.injEq] at h
    rw [← h.left]
    rfl
  | cons f fs ih =>
    rw [encodeAll] at h
    cases hE : E.encode c f with
    | mk r c'' =>
      rw [hE] at h
      cases r with
      | error e => cases h
      | ok buf  =>
        obtain ⟨r, hr, heq⟩ := Option.map_eq_some_iff.mp h
        cases heq
        simp [decodeMany, hd _ _ _ _ _ hE, ih hr]

open Machine (Event Along)

-- The wire holds the encodings of the frames whose call has returned success, the peer reads them
-- from it, and a call that returns `Ok(false)` leaves the cipher as it was.
structure Faithful (E : Encoder σ φ ε) (c : σ) (e : Event (Writer σ φ) (WriteAction φ)) : Prop where
  encoded   : ∃ c', encodeAll E c e.post.sent = some (e.post.wire, c')
  decodable : ∀ decode, Decodes E decode →
    decodeMany decode e.post.sent.length c e.post.wire = some (e.post.sent, [])
  unready   : (e.act.written E e.pre.half).returned = .ok false → e.post.half = e.pre.half

-- A frame is written as a whole, or not a byte of it by a socket that fails.
def WriteAction.Whole (buf : Bytes) : WriteAction φ → Prop
  | .writeFrame _ .complete       => True
  | .writeFrame _ (.fails n)      => n = 0
  | .tryWriteFrame _ (.accepts n) => n = 0 ∨ n = buf.length
  | .tryWriteFrame _ .wouldBlock  => False
  | .tryWriteFrame _ .fails       => True

instance {buf : Bytes} : DecidablePred (WriteAction.Whole (φ := φ) buf)
  | .writeFrame _ .complete       => inferInstanceAs (Decidable True)
  | .writeFrame _ (.fails n)      => inferInstanceAs (Decidable (n = 0))
  | .tryWriteFrame _ (.accepts n) => inferInstanceAs (Decidable (n = 0 ∨ n = buf.length))
  | .tryWriteFrame _ .wouldBlock  => inferInstanceAs (Decidable False)
  | .tryWriteFrame _ .fails       => inferInstanceAs (Decidable True)

-- No frame meets a socket that is not ready, and no part of a frame is left on the wire.
def Whole (E : Encoder σ φ ε) (s : Writer σ φ) (a : WriteAction φ) : Prop :=
  ∀ buf ∈ (E.encode s.half.cipher a.frame).1.toOption, a.Whole buf

instance {s : Writer σ φ} {a : WriteAction φ} : Decidable (Whole E s a) :=
  Option.decidableForallMem _

theorem Faithful.of_encodeAll {e : Event (Writer σ φ) (WriteAction φ)}
    (h : encodeAll E c e.post.sent = some (e.post.wire, c'))
    (hk : (e.act.written E e.pre.half).returned = .ok false → e.post.half = e.pre.half) :
    Faithful E c e where
  encoded             := ⟨c', h⟩
  decodable decode hd := by
    have hdec : decodeMany decode _ c (e.post.wire ++ []) = some (e.post.sent, []) :=
      decodeMany_encodeAll hd h
    rwa [List.append_nil] at hdec
  unready             := hk

namespace Writer

variable {s s' : Writer σ φ} {a : WriteAction φ} {e : ε}

theorem written_error (h : E.encode s.half.cipher a.frame = (.error e, c)) :
    a.written E s.half = ⟨.error (.codecError e), [], ⟨c⟩⟩ := by
  cases a with
  | writeFrame f io    =>
    rw [WriteAction.written, NoiseTcpWriteHalf.writeFrame, show E.encode s.half.cipher f = _ from h]
    rfl
  | tryWriteFrame f io =>
    rw [WriteAction.written, NoiseTcpWriteHalf.tryWriteFrame, show E.encode s.half.cipher f = _ from h]

-- The peer reads the frames that have been sent, and is at the state of the cipher as long as the
-- socket works.
def Synced (E : Encoder σ φ ε) (c : σ) (s : Writer σ φ) : Prop :=
  ∃ c', encodeAll E c s.sent = some (s.wire, c') ∧ (s.failed = false → c' = s.half.cipher)

theorem step_error (h : s.step E a = some s') (he : E.encode s.half.cipher a.frame = (.error e, c)) :
    s' = { s with half := ⟨c⟩ } := by
  simp only [step, he, written_error he, Option.some_inj] at h
  rw [← h]
  simp [Except.toOption]

theorem step_ok (h : s.step E a = some s') (he : E.encode s.half.cipher a.frame = (.ok buf, c)) :
    s.Takes buf a ∧ s' = { s with
      half   := (a.written E s.half).half
      wire   := s.wire ++ (a.written E s.half).wire
      sent   := if (a.written E s.half).returned.toOption = some true then s.sent ++ [a.frame]
        else s.sent
      failed := s.failed || ends buf a } := by
  simp only [step, he, Option.ite_none_right_eq_some, Option.some_inj] at h
  exact ⟨h.left, h.right.symm⟩

theorem whole_iff (he : E.encode s.half.cipher a.frame = (.ok buf, c)) :
    Whole E s a ↔ a.Whole buf := by
  simp [Whole, he, Except.toOption]

-- What a call with an encoded frame can come to: the frame is sent, the socket ends before any byte
-- of it, the socket is not ready, or a part of the frame is left on the wire.
theorem written_ok (he : E.encode s.half.cipher a.frame = (.ok buf, c)) (ht : s.Takes buf a) :
    (Whole E s a ∧ s.failed = false ∧ a.written E s.half = ⟨.ok true, buf, ⟨c⟩⟩) ∨
    (Whole E s a ∧ ends buf a = true ∧
      a.written E s.half = ⟨.error .socketClosed, [], ⟨c⟩⟩) ∨
    (¬Whole E s a ∧ a.written E s.half = ⟨.ok false, [], ⟨c⟩⟩) ∨
    (¬Whole E s a ∧ ∃ n, 0 < n ∧ n < buf.length ∧
      a.written E s.half = ⟨.error .socketClosed, buf.take n, ⟨c⟩⟩) := by
  rw [whole_iff he]
  cases a with
  | writeFrame f io    =>
    have he : E.encode s.half.cipher f = (.ok buf, c) := he
    simp only [WriteAction.written, NoiseTcpWriteHalf.writeFrame, he]
    cases io with
    | complete => exact .inl ⟨trivial, ht, rfl⟩
    | fails n  =>
      rcases Nat.eq_zero_or_pos n with rfl | hn
      · exact .inr <| .inl ⟨rfl, rfl, rfl⟩
      · exact .inr <| .inr <| .inr ⟨Nat.ne_of_gt hn, n, hn, ht.left, rfl⟩
  | tryWriteFrame f io =>
    have he : E.encode s.half.cipher f = (.ok buf, c) := he
    simp only [WriteAction.written, NoiseTcpWriteHalf.tryWriteFrame, he]
    cases io with
    | accepts n  =>
      have hn : n ≤ buf.length := ht.left
      by_cases hl : n = buf.length
      case pos => exact .inl ⟨.inr hl, ht.right, by simp only [if_pos hl]⟩
      case neg =>
        simp only [if_neg hl]
        have hl : n < buf.length := Nat.lt_of_le_of_ne hn hl
        rcases Nat.eq_zero_or_pos n with rfl | hp
        · exact .inr <| .inl ⟨.inl rfl, by simpa [ends] using hl, rfl⟩
        · exact .inr <| .inr <| .inr ⟨by unfold WriteAction.Whole; omega, n, hp, hl, rfl⟩
    | wouldBlock => exact .inr <| .inr <| .inl ⟨id, rfl⟩
    | fails      => exact .inr <| .inl ⟨trivial, rfl, rfl⟩

theorem Synced.step (hE : E.Lawful) (hs : s.Synced E c) (hw : Whole E s a)
    (h : s.step E a = some s') : s'.Synced E c := by
  obtain ⟨c', hc, hf⟩ := hs
  cases he : E.encode s.half.cipher a.frame with
  | mk r c'' =>
    cases r with
    | error e =>
      cases step_error h he
      cases hE.keeps _ _ _ _ he
      exact ⟨c', hc, hf⟩
    | ok buf  =>
      obtain ⟨ht, rfl⟩ := step_ok h he
      obtain ⟨_, hn, hr⟩ | ⟨_, hend, hr⟩ | ⟨hw', _⟩ | ⟨hw', _⟩ := written_ok he ht
      · cases hf hn
        refine ⟨c'', ?_, fun _ => by simp only [hr]⟩
        simp only [hr, Except.toOption, ↓reduceIte]
        rw [encodeAll_concat hc, he]
      · refine ⟨c', ?_, fun hn => by simp [hend] at hn⟩
        simpa [hr, Except.toOption] using hc
      · exact absurd hw hw'
      · exact absurd hw hw'

theorem Synced.faithful_step (hE : E.Lawful) (hs : s.Synced E c) (h : s.step E a = some s') :
    Faithful E c ⟨s, a, s'⟩ ↔ Whole E s a := by
  obtain ⟨c', hc, hf⟩ := hs
  cases he : E.encode s.half.cipher a.frame with
  | mk r c'' =>
    cases r with
    | error e =>
      cases step_error h he
      cases hE.keeps _ _ _ _ he
      exact iff_of_true (.of_encodeAll hc fun _ => rfl) (by simp [Whole, he, Except.toOption])
    | ok buf  =>
      have hpost (hw : Whole E s a) : s'.Synced E c := Synced.step hE ⟨c', hc, hf⟩ hw h
      obtain ⟨ht, rfl⟩ := step_ok h he
      obtain ⟨hw, hn, hr⟩ | ⟨hw, hend, hr⟩ | ⟨hw, hr⟩ | ⟨hw, n, hp, hl, hr⟩ := written_ok he ht
      · obtain ⟨_, hc, _⟩ := hpost hw
        exact iff_of_true (.of_encodeAll hc fun hr' => by rw [hr] at hr'; cases hr') hw
      · obtain ⟨_, hc, _⟩ := hpost hw
        exact iff_of_true (.of_encodeAll hc fun hr' => by rw [hr] at hr'; cases hr') hw
      · refine iff_of_false (fun hF => ?_) hw
        have hk := hF.unready (by rw [hr])
        simp only [hr] at hk
        exact hE.advances _ _ _ _ he (congrArg NoiseTcpWriteHalf.cipher hk)
      · refine iff_of_false (fun hF => ?_) hw
        obtain ⟨c₂, hc₂⟩ := hF.encoded
        simp only [hr, Except.toOption, reduceCtorEq, ↓reduceIte, hc, Option.some_inj,
          Prod.mk.injEq, List.self_eq_append_right, List.take_eq_nil_iff] at hc₂
        obtain h0 | h0 := hc₂.left
        · omega
        · rw [h0] at hl
          exact absurd hl (Nat.not_lt_zero n)

theorem start_synced : (start c : Writer σ φ).Synced E c :=
  ⟨c, rfl, fun _ => rfl⟩

theorem faithful_iff (hE : E.Lawful) {tr : List (Event (Writer σ φ) (WriteAction φ))}
    (r : (machine E c).Run tr s) : (∀ e ∈ tr, Faithful E c e) ↔ Along (Whole E) tr := by
  refine r.forall_iff_along (I := Synced E c) ?_ ?_ ?_
  case refine_1 =>
    rintro _ rfl
    exact start_synced
  case refine_2 => exact fun _ _ _ hs h => hs.faithful_step hE h
  case refine_3 => exact fun _ _ _ hs hw h => hs.step hE hw h

end Writer

namespace Writer

namespace Sample

-- A cipher that counts the frames, and writes its count before each of them.
def encoder : Encoder ℕ UInt8 Empty where
  encode n f := (.ok [.ofNat n, f], n + 1)

theorem encoder_lawful : encoder.Lawful where
  keeps    := by
    intro c f e c' h
    cases e
  advances := by
    intro c f buf c' h
    cases h
    exact Nat.succ_ne_self c

-- The frame 5 meets a socket that is not ready, and is sent again.
def again : List (WriteAction UInt8) :=
  [.tryWriteFrame 5 .wouldBlock]

theorem again_exec : ((machine encoder 0).exec (start 0) again).any fun s =>
    (s.step encoder (.tryWriteFrame 5 (.accepts 2))).any fun s' =>
      s'.wire = [1, 5] ∧ s'.sent = [5] := by
  decide +kernel

-- All calls come to their end at a socket that is ready, and the last one at a socket that has failed.
def ready : List (WriteAction UInt8) :=
  [.tryWriteFrame 5 (.accepts 2), .writeFrame 6 .complete, .writeFrame 7 (.fails 0)]

theorem ready_exec : ((machine encoder 0).exec (start 0) ready).isSome ∧
    ∀ e ∈ (machine encoder 0).trace (start 0) ready, Whole encoder e.pre e.act := by
  decide +kernel

end Sample

open Sample in
theorem not_faithful : ¬∀ tr s, (machine encoder 0).Run tr s →
    ∀ e ∈ tr, Faithful encoder 0 e := by
  intro h
  obtain ⟨s, hs, hn⟩ := Option.any_eq_true _ _ |>.mp again_exec
  obtain ⟨s', hs', hw⟩ := Option.any_eq_true _ _ |>.mp hn
  obtain ⟨hw, hf⟩ := of_decide_eq_true hw
  have r : (machine encoder 0).Run _ s := .of_exec rfl hs
  have hst : (machine encoder 0).step s (.tryWriteFrame 5 (.accepts 2)) = some s' := hs'
  have hF : Faithful encoder 0 ⟨s, _, s'⟩ := h _ _ (r.snoc hst) _ List.mem_concat_self
  obtain ⟨c', hc⟩ := hF.encoded
  simp only [hf, hw] at hc
  cases hc

open Sample in
theorem faithful_sample : ∃ tr s, (machine encoder 0).Run tr s ∧ tr.length = ready.length ∧
    ∀ e ∈ tr, Faithful encoder 0 e := by
  obtain ⟨hexec, ht⟩ := ready_exec
  obtain ⟨s, hs⟩ := Option.isSome_iff_exists.mp hexec
  have r : (machine encoder 0).Run _ s := .of_exec rfl hs
  exact ⟨_, s, r, by decide +kernel, (faithful_iff encoder_lawful r).mpr ht⟩

end Writer

end Network
