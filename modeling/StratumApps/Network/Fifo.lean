import StratumApps.Network.IoTasks
import StratumApps.Network.Reads
import StratumApps.Network.Writes

open Sv2

namespace Network

variable {σ τ φ ψ ε ε' : Type}

def Frame.IsSv2 : Frame φ → Prop
  | .handShake _ => False
  | .sv2 _       => True

-- The cipher of a side and the decoder of the other one that are related are at the same place of the
-- session: a frame that the one encodes is what the other decodes, at the last byte of it, and they
-- are related again.
structure Paired (E : Encoder σ (Frame φ) ε') (D : Decoder τ (Frame φ) ε) (P : σ → τ → Prop) :
    Prop where
  decodes : ∀ c d frame buf c', P c d → E.encode c (.sv2 frame) = (.ok buf, c') →
    ∃ n d', P c' d' ∧ D.run d buf = ⟨.replicate n .missingBytes ++ [.frame (.sv2 frame)], d', []⟩

variable {T : Forwarding φ ψ} {E : Encoder σ (Frame φ) ε'} {D : Decoder τ (Frame φ) ε}
variable {P : σ → τ → Prop} {c c' : σ} {d : τ} {bytes : Bytes}

theorem filterMap_result {n : ℕ} {f : φ} :
    (List.replicate n Decoded.missingBytes ++ [Decoded.frame f] : List (Decoded φ ε)).filterMap
      Decoded.result = [.ok f] := by
  rw [List.filterMap_append, List.filterMap_replicate]
  rfl

-- The encodings of frames one after the other are decoded to these frames.
theorem Paired.run_encodeAll {frames : List (Frame φ)} (hP : Paired E D P) (h : P c d)
    (hf : ∀ frame ∈ frames, frame.IsSv2) (he : encodeAll E c frames = some (bytes, c')) :
    ∃ d', P c' d' ∧ (D.run d bytes).state = d' ∧ (D.run d bytes).rest = [] ∧
      Reader.decodeAll D d bytes = frames.map .ok := by
  induction frames generalizing c d bytes with
  | nil                 =>
    cases he
    exact ⟨d, h, by rw [Consumer.run_nil], by rw [Consumer.run_nil],
      by rw [Reader.decodeAll, Consumer.run_nil]; rfl⟩
  | cons frame frames ih =>
    obtain ⟨hfr, hfs⟩ := List.forall_mem_cons.mp hf
    cases frame with
    | handShake payload => cases hfr
    | sv2 f             =>
      rw [encodeAll] at he
      cases hE : E.encode c (.sv2 f) with
      | mk r c₁ =>
        rw [hE] at he
        cases r with
        | error e => cases he
        | ok buf  =>
          obtain ⟨r, hr, heq⟩ := Option.map_eq_some_iff.mp he
          cases heq
          obtain ⟨n, d₁, h₁, hrun⟩ := hP.decodes _ _ _ _ _ h hE
          obtain ⟨d', h', hst, hrest, hdec⟩ := ih h₁ hfs hr
          refine ⟨d', h', ?_, ?_, ?_⟩
          · rw [Consumer.run_append, hrun]
            exact hst
          · rw [Consumer.run_append, hrun]
            exact hrest
          · rw [Reader.decodeAll, Consumer.run_append, hrun, Consumer.Outcome.after,
              List.filterMap_append, filterMap_result, List.map_cons, ← hdec]
            rfl

theorem Reader.decodeAll_prefix {bytes bytes' : Bytes} (h : bytes <+: bytes') :
    Reader.decodeAll D d bytes <+: Reader.decodeAll D d bytes' := by
  obtain ⟨rest, rfl⟩ := h
  exact Consumer.results_prefix.filterMap _

-- A call returns at most one result more.
theorem Reader.step_returned {r r' : Reader τ (Frame φ) ε} {a : ReadAction}
    (h : r.step D a = some r') :
    r'.returned = r.returned ∨ ∃ res, r'.returned = r.returned ++ [res] := by
  have hsettle (s : Reader τ (Frame φ) ε) (x : Poll (Frame φ) ε × NoiseTcpReadHalf τ) :
      (s.settle x).returned = s.returned ∨ ∃ res, (s.settle x).returned = s.returned ++ [res] := by
    obtain ⟨a | res, half⟩ := x
    · exact .inl rfl
    · exact .inr ⟨res, rfl⟩
  have htry (s : Reader τ (Frame φ) ε)
      (x : Except (ReadError ε) (Option (Frame φ)) × NoiseTcpReadHalf τ) :
      (s.settleTry x).returned = s.returned ∨
        ∃ res, (s.settleTry x).returned = s.returned ++ [res] := by
    obtain ⟨e | _ | f, half⟩ := x
    · exact .inr ⟨.error e, rfl⟩
    · exact .inl rfl
    · exact .inr ⟨.ok f, rfl⟩
  obtain ⟨_, _, rfl⟩ | ⟨_, rfl | rfl | ⟨read, _, _, rfl⟩ | rfl | ⟨_, rfl⟩ | ⟨read, _, _, rfl⟩⟩ :=
    step_cases h
  · exact .inl rfl
  · exact .inl rfl
  · exact hsettle _ _
  · cases read <;> exact hsettle _ _
  · exact .inl rfl
  · exact .inl rfl
  · cases read <;> exact htry _ _

-- What the call of the writer task puts on the wire: nothing of a frame that cannot be encoded, all of
-- one that it writes, and the beginning of one at which the socket fails.
theorem Writer.writeFrame_cases {w w' : Writer σ (Frame φ)} {f : Frame φ} {io : WriteAll}
    (h : w.step E (.writeFrame f io) = some w') :
    (∃ e, (w.half.writeFrame E f io).returned = .error e ∧ w'.wire = w.wire) ∨
    ∃ buf, E.encode w.half.cipher f = (.ok buf, w'.half.cipher) ∧
      ((w.half.writeFrame E f io).returned = .ok () ∧ w'.wire = w.wire ++ buf ∨
        ∃ e n, (w.half.writeFrame E f io).returned = .error e ∧ w'.wire = w.wire ++ buf.take n) := by
  cases he : E.encode w.half.cipher f with
  | mk r c =>
    cases r with
    | error e =>
      cases step_error h he
      exact .inl ⟨_, by rw [NoiseTcpWriteHalf.writeFrame, he], rfl⟩
    | ok buf  =>
      obtain ⟨_, rfl⟩ := step_ok h he
      simp only [WriteAction.written, NoiseTcpWriteHalf.writeFrame, he]
      cases io with
      | complete => exact .inr ⟨buf, rfl, .inl ⟨rfl, rfl⟩⟩
      | fails n  => exact .inr ⟨buf, rfl, .inr ⟨_, n, rfl, rfl⟩⟩

theorem Reader.Synced.cancel {r : Reader τ (Frame φ) ε} (h : r.Synced D d) :
    Reader.Synced D d { r with call := none } where
  half      := h.half
  reading _ := by contradiction
  decoded   := h.decoded

namespace Peer

variable {p p' : Peer σ τ φ ψ ε} {a : PeerAction ψ}

-- What the steps of an end are.
inductive Steps (T : Forwarding φ ψ) (E : Encoder σ (Frame φ) ε') (D : Decoder τ (Frame φ) ε)
    (p : Peer σ τ φ ψ ε) : PeerAction ψ → Peer σ τ φ ψ ε → Prop
  | send {m : ψ} : Steps T E D p (.send m) { p with
      outbound := { p.outbound with queue := p.outbound.queue ++ [m] }
      accepted := p.accepted ++ [m] }
  | recv {m : ψ} {ms : List ψ} : p.inbound.queue = m :: ms → Steps T E D p .recv { p with
      inbound  := { p.inbound with queue := ms }
      received := p.received ++ [m] }
  | close : Steps T E D p .close p.closeChannels
  | writes {io : WriteAll} {m : ψ} {ms : List ψ} {w : Writer σ (Frame φ)} :
    p.writing = true → p.outbound.queue = m :: ms →
    p.writer.step E (.writeFrame (T.toFrame m) io) = some w →
    (p.writer.half.writeFrame E (T.toFrame m) io).returned = .ok () →
    Steps T E D p (.write io) { p with
      outbound := { p.outbound with queue := ms }
      writer   := w }
  | fails {io : WriteAll} {m : ψ} {ms : List ψ} {w : Writer σ (Frame φ)} {e : WriteError ε'} :
    p.writing = true → p.outbound.queue = m :: ms →
    p.writer.step E (.writeFrame (T.toFrame m) io) = some w →
    (p.writer.half.writeFrame E (T.toFrame m) io).returned = .error e →
    Steps T E D p (.write io) (stopWriter { p with
      outbound := { p.outbound with queue := ms }
      writer   := w })
  | endWriter : Steps T E D p .endWriter p.stopWriter
  | reads {call : ReadCall} {r : Reader τ (Frame φ) ε} :
    p.reader.step D call.action = some r → r.returned = p.reader.returned →
    Steps T E D p (.read call) { p with reader := r }
  | forwards {call : ReadCall} {r : Reader τ (Frame φ) ε} {m : ψ} :
    p.reading = true → p.reader.step D call.action = some r →
    r.returned = p.reader.returned ++ [.ok (T.toFrame m)] →
    Steps T E D p (.read call) { p with
      reader  := r
      inbound := { p.inbound with queue := p.inbound.queue ++ [m] } }
  | stops {call : ReadCall} {r : Reader τ (Frame φ) ε} {res : Except (ReadError ε) (Frame φ)} :
    p.reader.step D call.action = some r → r.returned = p.reader.returned ++ [res] →
    Steps T E D p (.read call) (stopReader { p with reader := r })
  | cancels : Steps T E D p (.notice false) { p with reader := { p.reader with call := none } }
  | notices : Steps T E D p (.notice true)
      (stopReader { p with reader := { p.reader with call := none } })

theorem steps_of_step (h : p.step T E D a = some p') : p.Steps T E D a p' := by
  cases a with
  | send m       =>
    simp only [step, Peer.send, Option.ite_none_left_eq_some, Option.some_inj] at h
    exact h.right ▸ .send
  | recv         =>
    simp only [step, Peer.recv] at h
    split at h
    case h_1          => cases h
    case h_2 m ms heq =>
      cases h
      exact .recv heq
  | close        =>
    cases h
    exact .close
  | write io     =>
    simp only [step, Peer.write] at h
    split at h
    case h_1 m ms hw hq =>
      obtain ⟨w, hst, rfl⟩ := Option.map_eq_some_iff.mp h
      split
      case h_1 hr   => exact .writes hw hq hst hr
      case h_2 e hr => exact .fails hw hq hst hr
    case h_2            => cases h
  | endWriter    =>
    simp only [step, Peer.endWriter, Option.ite_none_right_eq_some, Option.some_inj] at h
    exact h.right ▸ .endWriter
  | read call    =>
    simp only [step, Peer.read, Option.ite_none_right_eq_some] at h
    obtain ⟨hr, h⟩ := h
    obtain ⟨r, hst, rfl⟩ := Option.map_eq_some_iff.mp h
    obtain hret | ⟨res, hret⟩ := Reader.step_returned hst
    case inl =>
      rw [hret, List.drop_length]
      exact .reads hst hret
    case inr =>
      rw [hret, List.drop_left]
      cases res with
      | error e  => exact .stops hst hret
      | ok frame =>
        simp only [forward]
        split
        case h_1 m hm =>
          split
          case isTrue  => exact .stops hst hret
          case isFalse => exact .forwards hr hst (((T.ofFrame_eq_some frame m).mp hm) ▸ hret)
        case h_2      => exact .stops hst hret
  | notice stops =>
    simp only [step, Peer.notice, Option.ite_none_right_eq_some, Option.some_inj] at h
    cases stops with
    | false => exact h.right ▸ .cancels
    | true  => exact h.right ▸ .notices

-- The writer task has taken messages out of the channel in the order in which they were put into it,
-- and has put their encodings on the wire. Of the last of them there may be only a part, once the task
-- has ended.
structure Sends (T : Forwarding φ ψ) (E : Encoder σ (Frame φ) ε') (c : σ) (ms : List ψ)
    (bytes : Bytes) (c' : σ) (p : Peer σ τ φ ψ ε) : Prop where
  encoded : encodeAll E c (ms.map T.toFrame) = some (bytes, c')
  wire    : p.writer.wire <+: bytes
  taken   : ms <+: p.accepted
  running : p.writing = true →
    p.writer.wire = bytes ∧ p.writer.half.cipher = c' ∧ p.accepted = ms ++ p.outbound.queue

-- The messages that the reader task has forwarded are the frames that its calls have returned, and no
-- call has returned anything else as long as the task runs.
structure Receives (T : Forwarding φ ψ) (D : Decoder τ (Frame φ) ε) (d : τ)
    (p : Peer σ τ φ ψ ε) : Prop where
  synced    : p.reader.Synced D d
  forwarded : (p.received ++ p.inbound.queue).map (.ok ∘ T.toFrame) <+: p.reader.returned
  running   : p.reading = true →
    p.reader.returned = (p.received ++ p.inbound.queue).map (.ok ∘ T.toFrame)

variable {ms : List ψ}

theorem Sends.step (h : p.Sends T E c ms bytes c') (hs : p.Steps T E D a p') :
    ∃ ms bytes c', p'.Sends T E c ms bytes c' := by
  obtain ⟨he, hw, ht, hrun⟩ := h
  cases hs with
  | send =>
    refine ⟨ms, bytes, c', he, hw, ht.trans (List.prefix_append _ _), fun hr => ?_⟩
    obtain ⟨hwire, hc, ha⟩ := hrun hr
    exact ⟨hwire, hc, by rw [ha, List.append_assoc]⟩
  | @writes io m rest w hr hq hst hret =>
    obtain ⟨hwire, hc, ha⟩ := hrun hr
    obtain ⟨e, hret', _⟩ | ⟨buf, hbuf, ⟨_, hw'⟩ | ⟨e, _, hret', _⟩⟩ := Writer.writeFrame_cases hst
    · cases hret.symm.trans hret'
    · have hacc : p.accepted = (ms ++ [m]) ++ rest := by rw [ha, hq, List.append_assoc]; rfl
      rw [hc] at hbuf
      refine ⟨ms ++ [m], bytes ++ buf, w.half.cipher, ?_, ?_, ?_, fun _ => ?_⟩
      · rw [List.map_append, List.map_singleton, encodeAll_concat he, hbuf]
      · rw [hw', hwire]
      · exact hacc ▸ List.prefix_append _ _
      · exact ⟨by rw [hw', hwire], rfl, hacc⟩
    · cases hret.symm.trans hret'
  | @fails io m rest w e hr hq hst hret =>
    obtain ⟨hwire, hc, ha⟩ := hrun hr
    obtain ⟨e, _, hw'⟩ | ⟨buf, hbuf, ⟨hret', _⟩ | ⟨e, n, _, hw'⟩⟩ := Writer.writeFrame_cases hst
    · refine ⟨ms, bytes, c', he, ?_, ht, fun hr => by cases hr⟩
      exact hw'.symm ▸ hw
    · cases hret.symm.trans hret'
    · have hacc : p.accepted = (ms ++ [m]) ++ rest := by rw [ha, hq, List.append_assoc]; rfl
      rw [hc] at hbuf
      refine ⟨ms ++ [m], bytes ++ buf, w.half.cipher, ?_, ?_, ?_, fun hr => by cases hr⟩
      · rw [List.map_append, List.map_singleton, encodeAll_concat he, hbuf]
      · show w.wire <+: _
        rw [hw', hwire]
        exact List.prefix_append_right_inj bytes |>.mpr (List.take_prefix n buf)
      · exact hacc ▸ List.prefix_append _ _
  | endWriter => exact ⟨ms, bytes, c', he, hw, ht, fun hr => by cases hr⟩
  | _ => exact ⟨ms, bytes, c', he, hw, ht, hrun⟩

theorem Receives.step (h : p.Receives T D d) (hs : p.Steps T E D a p') : p'.Receives T D d := by
  obtain ⟨hsync, hfw, hrun⟩ := h
  cases hs with
  | @recv m ms hq =>
    have he : (p.received ++ [m]) ++ ms = p.received ++ p.inbound.queue := by
      rw [hq, List.append_assoc]
      rfl
    refine ⟨hsync, ?_, fun hr => ?_⟩
    · exact he.symm ▸ hfw
    · exact he.symm ▸ hrun hr
  | reads hst hret => exact ⟨hsync.step hst, hret.symm ▸ hfw, fun hr => hret.trans (hrun hr)⟩
  | @forwards call r m hr hst hret =>
    have he : r.returned = (p.received ++ (p.inbound.queue ++ [m])).map (.ok ∘ T.toFrame) := by
      rw [hret, hrun hr, ← List.append_assoc, List.map_append, List.map_append, List.map_append]
      rfl
    exact ⟨hsync.step hst, he ▸ List.prefix_refl _, fun _ => he⟩
  | stops hst hret =>
    refine ⟨hsync.step hst, ?_, fun hr => by cases hr⟩
    show _ <+: Reader.returned _
    exact hret.symm ▸ hfw.trans (List.prefix_append _ _)
  | cancels => exact ⟨hsync.cancel, hfw, hrun⟩
  | notices => exact ⟨hsync.cancel, hfw, fun hr => by cases hr⟩
  | _ => exact ⟨hsync, hfw, hrun⟩

-- An end adds to the wire and leaves what is on it, and reads only what has arrived.
theorem Steps.wire (hs : p.Steps T E D a p') : p.writer.wire <+: p'.writer.wire := by
  have hstep {w : Writer σ (Frame φ)} {f : Frame φ} {io : WriteAll}
      (h : p.writer.step E (.writeFrame f io) = some w) : p.writer.wire <+: w.wire := by
    obtain ⟨_, _, h⟩ | ⟨_, _, ⟨_, h⟩ | ⟨_, _, _, h⟩⟩ := Writer.writeFrame_cases h
    · exact h ▸ List.prefix_refl _
    · exact h ▸ List.prefix_append _ _
    · exact h ▸ List.prefix_append _ _
  cases hs with
  | writes _ _ hst _ => exact hstep hst
  | fails _ _ hst _  => exact hstep hst
  | _ => exact List.prefix_refl _

def arrived (p : Peer σ τ φ ψ ε) : Bytes :=
  p.reader.consumed ++ p.reader.arrived

theorem Steps.arrived (hs : p.Steps T E D a p') : p'.arrived = p.arrived := by
  have hstep {call : ReadCall} {r : Reader τ (Frame φ) ε}
      (h : p.reader.step D call.action = some r) :
      r.consumed ++ r.arrived = p.reader.consumed ++ p.reader.arrived := by
    rw [Reader.step_bytes h]
    cases call <;> exact List.append_nil _
  cases hs with
  | reads hst _      => exact hstep hst
  | forwards _ hst _ => exact hstep hst
  | stops hst _      => exact hstep hst
  | _ => rfl

theorem Steps.accepted (hs : p.Steps T E D a p') {m : ψ} (hm : m ∈ p'.accepted) :
    m ∈ p.accepted ∨ a = .send m := by
  cases hs with
  | send =>
    obtain hm | hm := List.mem_append.mp hm
    · exact .inl hm
    · cases List.mem_singleton.mp hm
      exact .inr rfl
  | _ => exact .inl hm

end Peer

@[simp]
theorem Side.other_other {x : Side} : x.other.other = x := by
  cases x <;> rfl

theorem Side.other_ne {x : Side} : x.other ≠ x := by
  cases x <;> decide

theorem Side.eq_or_eq_other (y x : Side) : y = x ∨ y = x.other := by
  cases x <;> cases y <;> decide

namespace Link

variable {s s' : Link σ τ φ ψ ε} {a : LinkAction ψ} {x : Side} {cs : Side → σ} {ds : Side → τ}

@[simp]
theorem set_peer_self {p : Peer σ τ φ ψ ε} : (s.set x p).peer x = p :=
  Function.update_self ..

theorem set_peer_of_ne {y : Side} {p : Peer σ τ φ ψ ε} (h : y ≠ x) :
    (s.set x p).peer y = s.peer y :=
  Function.update_of_ne h ..

-- The direction from a side to the other one.
structure Joined (T : Forwarding φ ψ) (E : Encoder σ (Frame φ) ε') (D : Decoder τ (Frame φ) ε)
    (c : σ) (d : τ) (p q : Peer σ τ φ ψ ε) : Prop where
  sends    : ∃ ms bytes c', p.Sends T E c ms bytes c'
  receives : q.Receives T D d
  arrived  : q.arrived <+: p.writer.wire
  sv2      : ∀ m ∈ p.accepted, (T.toFrame m).IsSv2

-- The owner of an end sends frames of the session, and not those of its handshake again.
def OfSession (T : Forwarding φ ψ) (_ : Link σ τ φ ψ ε) (a : LinkAction ψ) : Prop :=
  ∀ x m, a = .peer x (.send m) → (T.toFrame m).IsSv2

theorem network_cases {b : ReadAction} (hb : b = .close ∨ ∃ bytes, b = .arrive bytes)
    (h : s.network D x b = some s') : ∃ r, s' = s.set x { s.peer x with reader := r } ∧
      ((s.peer x).reader.Synced D d → r.Synced D d) ∧ r.returned = (s.peer x).reader.returned ∧
      r.consumed ++ r.arrived = (s.peer x).arrived ++ b.arriving := by
  obtain ⟨r, hst, rfl⟩ := Option.map_eq_some_iff.mp h
  refine ⟨r, rfl, fun hs => hs.step hst, ?_, Reader.step_bytes hst⟩
  obtain rfl | ⟨bytes, rfl⟩ := hb
  · cases hst
    rfl
  · simp only [Reader.step, Option.ite_none_left_eq_some, Option.some_inj] at hst
    rw [← hst.right]

theorem network_of_step (h : s.step T E D a = some s') : (∃ x b p', a = .peer x b ∧
    (s.peer x).Steps T E D b p' ∧ s' = s.set x p') ∨
    ∃ x b n, (b = .close ∨ ∃ bytes, b = .arrive bytes) ∧ b.arriving = (s.transit x).take n ∧
      s.network D x b = some s' := by
  cases a with
  | peer x b   =>
    obtain ⟨p', hst, rfl⟩ := Option.map_eq_some_iff.mp h
    exact .inl ⟨x, b, p', rfl, Peer.steps_of_step hst, rfl⟩
  | arrive x n => exact .inr ⟨x, _, n, .inr ⟨_, rfl⟩, rfl, h⟩
  | fin x      =>
    simp only [step, Option.ite_none_right_eq_some] at h
    exact .inr ⟨x, .close, 0, .inl rfl, rfl, h.right⟩

theorem Joined.step (h : Joined T E D (cs x) (ds x.other) (s.peer x) (s.peer x.other))
    (ha : OfSession T s a) (hs : s.step T E D a = some s') :
    Joined T E D (cs x) (ds x.other) (s'.peer x) (s'.peer x.other) := by
  obtain ⟨⟨ms, bytes, c', hsends⟩, hrec, harr, hsv2⟩ := h
  obtain ⟨y, b, p', rfl, hst, rfl⟩ | ⟨y, b, n, hb, hn, hnet⟩ := network_of_step hs
  case inl =>
    obtain rfl | rfl := Side.eq_or_eq_other y x
    · rw [set_peer_self, set_peer_of_ne Side.other_ne]
      refine ⟨hsends.step hst, hrec, harr.trans hst.wire, fun m hm => ?_⟩
      obtain hm | rfl := hst.accepted hm
      · exact hsv2 m hm
      · exact ha _ m rfl
    · rw [set_peer_self, set_peer_of_ne Side.other_ne.symm]
      exact ⟨⟨ms, bytes, c', hsends⟩, hrec.step hst, hst.arrived.symm ▸ harr, hsv2⟩
  case inr =>
    obtain ⟨r, rfl, hsync, hret, hbytes⟩ := network_cases (d := ds x.other) hb hnet
    obtain rfl | rfl := Side.eq_or_eq_other y x
    · rw [set_peer_self, set_peer_of_ne Side.other_ne]
      exact ⟨⟨ms, bytes, c', hsends.encoded, hsends.wire, hsends.taken, hsends.running⟩, hrec, harr,
        hsv2⟩
    · rw [set_peer_self, set_peer_of_ne Side.other_ne.symm]
      refine ⟨⟨ms, bytes, c', hsends⟩, ⟨hsync hrec.synced, ?_, ?_⟩, ?_, hsv2⟩
      · exact hret.symm ▸ hrec.forwarded
      · exact fun hr => hret.trans (hrec.running hr)
      · obtain ⟨rest, hrest⟩ := harr
        show r.consumed ++ r.arrived <+: _
        rw [hbytes, hn, transit, Side.other_other, ← List.length_append, ← hrest]
        rw [show ((s.peer x.other).reader.consumed ++ (s.peer x.other).reader.arrived) =
          (s.peer x.other).arrived from rfl, List.drop_left]
        exact List.prefix_append_right_inj _ |>.mpr (List.take_prefix n rest)

theorem joined_of_run {tr : List (Machine.Event (Link σ τ φ ψ ε) (LinkAction ψ))}
    (r : (machine T E D cs ds).Run tr s) (hc : Machine.Along (OfSession T) tr) (x : Side) :
    Joined T E D (cs x) (ds x.other) (s.peer x) (s.peer x.other) := by
  refine r.invariant
    (I := fun s => Joined T E D (cs x) (ds x.other) (s.peer x) (s.peer x.other)) ?_ ?_ hc
  case refine_1 =>
    rintro _ rfl
    refine ⟨⟨[], [], cs x, rfl, List.prefix_refl _, List.prefix_refl _, fun _ => ⟨rfl, rfl, rfl⟩⟩,
      ⟨Reader.start_synced, List.prefix_refl _, fun _ => rfl⟩, List.nil_prefix, fun m hm => ?_⟩
    cases hm
  case refine_2 => exact fun _ _ _ h ha hs => h.step ha hs

-- Nothing is under way from a side to the other one.
structure Quiet (s : Link σ τ φ ψ ε) (x : Side) : Prop where
  writing  : (s.peer x).writing = true
  reading  : (s.peer x.other).reading = true
  outbound : (s.peer x).outbound.queue = []
  inbound  : (s.peer x.other).inbound.queue = []
  wire     : (s.peer x.other).reader.consumed = (s.peer x).writer.wire

-- A connection is a queue from each side to the other one.
structure Fifo (T : Forwarding φ ψ) (s : Link σ τ φ ψ ε) (x : Side) : Prop where
  ordered   : (s.peer x.other).received <+: (s.peer x).accepted
  faultless : ∀ res ∈ (s.peer x.other).reader.returned,
    res = .error .socketClosed ∨ ∃ m ∈ (s.peer x).accepted, res = .ok (T.toFrame m)
  complete  : Quiet s x → (s.peer x.other).received = (s.peer x).accepted

theorem toFrame_injective : Function.Injective T.toFrame := by
  intro m m' h
  have hm : T.ofFrame (T.toFrame m) = some m := (T.ofFrame_eq_some _ _).mpr rfl
  have hm' : T.ofFrame (T.toFrame m) = some m' := (T.ofFrame_eq_some _ _).mpr h
  exact Option.some_inj.mp (hm.symm.trans hm')

section Directions

variable {p q : Peer σ τ φ ψ ε}

-- What the frames of the one side are to the calls of the other.
abbrev arrival (T : Forwarding φ ψ) (ε : Type) (m : ψ) : Except (ReadError ε) (Frame φ) :=
  .ok (T.toFrame m)

theorem arrival_injective : Function.Injective (arrival T ε) := by
  intro m m' h
  exact toFrame_injective (Except.ok.inj h)

theorem Joined.decoded (hP : Paired E D P) (h : Joined T E D c d p q) (hcd : P c d) :
    ∃ ms, ms <+: p.accepted ∧ q.reader.decoded <+: ms.map (arrival T ε) ∧
      (p.writing = true → q.reader.consumed = p.writer.wire →
        p.accepted = ms ++ p.outbound.queue ∧ q.reader.decoded = ms.map (arrival T ε)) := by
  obtain ⟨⟨ms, bytes, c', hs⟩, hr, ha, hf⟩ := h
  have hf : ∀ frame ∈ ms.map T.toFrame, frame.IsSv2 := by
    intro frame hframe
    obtain ⟨m, hm, rfl⟩ := List.mem_map.mp hframe
    exact hf m (hs.taken.subset hm)
  obtain ⟨d', _, _, _, hd⟩ := hP.run_encodeAll hcd hf hs.encoded
  rw [List.map_map] at hd
  refine ⟨ms, hs.taken, ?_, fun hw hc => ?_⟩
  · rw [hr.synced.decoded]
    have hp : q.reader.consumed <+: bytes :=
      (List.prefix_append _ _).trans (ha.trans hs.wire)
    exact hd ▸ Reader.decodeAll_prefix hp
  · obtain ⟨hwire, _, hacc⟩ := hs.running hw
    refine ⟨hacc, ?_⟩
    rw [hr.synced.decoded, hc, hwire]
    exact hd

theorem Joined.fifo (hP : Paired E D P) (h : Joined T E D c d p q) (hcd : P c d) :
    q.received ++ q.inbound.queue <+: p.accepted ∧
    (∀ res ∈ q.reader.returned,
      res = .error .socketClosed ∨ ∃ m ∈ p.accepted, res = arrival T ε m) ∧
    (p.writing = true → q.reading = true → q.reader.consumed = p.writer.wire →
      p.accepted = q.received ++ q.inbound.queue ++ p.outbound.queue) := by
  obtain ⟨ms, hms, hdec, hall⟩ := h.decoded hP hcd
  have hkeep (l : List ψ) : (l.map (arrival T ε)).filter Reader.isDecoded = l.map (arrival T ε) := by
    refine List.filter_eq_self.mpr fun res hres => ?_
    obtain ⟨m, _, rfl⟩ := List.mem_map.mp hres
    rfl
  have hfw : (q.received ++ q.inbound.queue).map (arrival T ε) <+: q.reader.decoded :=
    hkeep _ ▸ h.receives.forwarded.filter Reader.isDecoded
  refine ⟨?_, fun res hres => ?_, fun hw hr hc => ?_⟩
  · exact (List.prefix_map_iff_of_injective arrival_injective).mp (hfw.trans hdec) |>.trans hms
  · by_cases hd : Reader.isDecoded res
    case pos =>
      have hres : res ∈ ms.map (arrival T ε) := hdec.subset (List.mem_filter.mpr ⟨hres, hd⟩)
      obtain ⟨m, hm, rfl⟩ := List.mem_map.mp hres
      exact .inr ⟨m, hms.subset hm, rfl⟩
    case neg =>
      cases res with
      | ok frame => exact absurd rfl hd
      | error e  =>
        cases e with
        | socketClosed => exact .inl rfl
        | codecError e => exact absurd rfl hd
  · obtain ⟨hacc, hms⟩ := hall hw hc
    have hret : q.reader.decoded = (q.received ++ q.inbound.queue).map (arrival T ε) := by
      rw [Reader.decoded, h.receives.running hr]
      exact hkeep _
    rw [hacc, List.map_injective_iff.mpr arrival_injective (hms.symm.trans hret)]

end Directions

-- The run lemma: in every state of a run of the two sides and the network between them.
theorem fifo_of_run {tr : List (Machine.Event (Link σ τ φ ψ ε) (LinkAction ψ))}
    (hP : Paired E D P) (hcd : ∀ x : Side, P (cs x) (ds x.other))
    (r : (machine T E D cs ds).Run tr s) (hc : Machine.Along (OfSession T) tr) (x : Side) :
    Fifo T s x := by
  obtain ⟨ho, hf, hq⟩ := (joined_of_run r hc x).fifo hP (hcd x)
  refine ⟨(List.prefix_append _ _).trans ho, hf, fun h => ?_⟩
  have h' := hq h.writing h.reading h.wire
  rw [h.outbound, h.inbound, List.append_nil, List.append_nil] at h'
  exact h'.symm

theorem ofSession_spawnIoTasks {s : Link σ τ φ φ ε} {a : LinkAction φ} :
    OfSession spawnIoTasks s a :=
  fun _ _ _ => trivial

namespace Sample

-- A cipher that counts the frames and writes its count before each of them, and its decoder.
def encoder : Encoder ℕ (Frame UInt8) Empty where
  encode n
    | .sv2 f       => (.ok [.ofNat n, f], n + 1)
    | .handShake b => (.ok b, n + 1)

def decoder : Decoder ℕ (Frame UInt8) ℕ where
  demand _     := 2
  demand_pos _ := Nat.two_pos
  consume n
    | [i, f] => (if i = .ofNat n then .frame (.sv2 f) else .error n, n + 1)
    | _      => (.missingBytes, n)

theorem paired : Paired encoder decoder Eq where
  decodes c d frame buf c' h he := by
    cases h
    cases he
    refine ⟨0, c + 1, rfl, ?_⟩
    rw [Consumer.run_exact rfl]
    simp [decoder]

-- Two frames go one way and one the other way. A notice cancels the call that reads the first one.
def exchanged : List (LinkAction UInt8) := [
  .peer .initiator (.send 5), .peer .initiator (.send 6), .peer .responder (.send 7),
  .peer .initiator (.write .complete), .peer .initiator (.write .complete), .arrive .responder 3,
  .peer .responder (.read .start), .peer .responder (.read (.poll (.bytes 1))),
  .peer .responder (.notice false), .peer .responder (.read .start),
  .peer .responder (.read (.poll (.bytes 1))), .peer .responder .recv,
  .peer .responder (.read .start), .peer .responder (.read (.poll (.bytes 1))),
  .arrive .responder 1, .peer .responder (.write .complete), .arrive .initiator 2,
  .peer .responder (.read (.poll (.bytes 1))), .peer .responder .recv,
  .peer .initiator (.read .start), .peer .initiator (.read (.poll (.bytes 2))),
  .peer .initiator .recv]

abbrev sample : Machine (Link ℕ ℕ UInt8 UInt8 ℕ) (LinkAction UInt8) :=
  machine spawnIoTasks encoder decoder (fun _ => 0) (fun _ => 0)

theorem exchanged_exec : (sample.exec (start (fun _ => 0) fun _ => 0) exchanged).any fun s =>
    (s.peer .responder).received = [5, 6] ∧ (s.peer .initiator).received = [7] := by
  decide +kernel

end Sample

open Sample in
theorem fifo_of_run_sample : ∃ tr s, sample.Run tr s ∧ (s.peer .responder).received = [5, 6] ∧
    (s.peer .initiator).received = [7] ∧ ∀ x, Fifo spawnIoTasks s x := by
  obtain ⟨s, hs, hr⟩ := Option.any_eq_true _ _ |>.mp exchanged_exec
  obtain ⟨hr, hr'⟩ := of_decide_eq_true hr
  have r : sample.Run _ s := .of_exec rfl hs
  have hcd (x : Side) : (fun _ : Side => 0) x = (fun _ : Side => 0) x.other := rfl
  exact ⟨_, s, r, hr, hr', fifo_of_run paired hcd r fun _ _ => ofSession_spawnIoTasks⟩

end Link

end Network
