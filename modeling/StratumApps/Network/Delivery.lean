import StratumApps.Network.Fifo

open Sv2

namespace Network

variable {σ τ φ ψ ε ε' : Type}
variable {T : Forwarding φ ψ} {E : Encoder σ (Frame φ) ε'} {D : Decoder τ (Frame φ) ε}
variable {P : σ → τ → Prop}

-- The cipher fails on no frame of the session.
structure Encoder.Encodes (E : Encoder σ (Frame φ) ε') : Prop where
  encodes : ∀ c frame, frame.IsSv2 → ∃ buf c', E.encode c frame = (.ok buf, c')

-- A poll that gives bytes does not return the end of the socket.
theorem Reader.polled_returned {r : Reader τ (Frame φ) ε} {n : ℕ}
    {res : Except (ReadError ε) (Frame φ)}
    (h : (r.polled D (.bytes n)).returned = r.returned ++ [res]) : res ≠ .error .socketClosed := by
  rintro rfl
  simp only [polled, NoiseTcpReadHalf.readLoop] at h
  split at h
  case isTrue  => simp [settle, take] at h
  case isFalse =>
    split at h
    all_goals simp [settle, take] at h

theorem Reader.settle_closed {r : Reader τ (Frame φ) ε} {x : Poll (Frame φ) ε × NoiseTcpReadHalf τ} :
    (r.settle x).closed = r.closed := by
  obtain ⟨p, half⟩ := x
  rw [settle_eq]

theorem Reader.polled_closed {r : Reader τ (Frame φ) ε} {read : SocketRead} :
    (r.polled D read).closed = r.closed := by
  cases read <;> exact settle_closed

-- No call of the reader task closes the stream.
theorem Reader.step_closed {r r' : Reader τ (Frame φ) ε} {call : ReadCall}
    (h : r.step D call.action = some r') : r'.closed = r.closed := by
  cases call with
  | start     =>
    simp only [ReadCall.action, step, Option.ite_none_right_eq_some, Option.some_inj] at h
    exact h.right ▸ settle_closed
  | poll read =>
    simp only [ReadCall.action, step, Option.ite_none_right_eq_some, Option.some_inj] at h
    exact h.right ▸ polled_closed
  | resume    =>
    simp only [ReadCall.action, step, Option.ite_none_right_eq_some, Option.some_inj] at h
    exact h.right ▸ settle_closed

namespace Peer

variable {p p' q : Peer σ τ φ ψ ε} {m : ψ} {ms : List ψ}

-- Both ends of a direction are at work: the task that writes has a socket that works, and the one that
-- reads has a channel that takes what it reads.
structure Working (p q : Peer σ τ φ ψ ε) : Prop where
  writing : p.writing = true
  socket  : p.writer.failed = false
  reading : q.reading = true
  inbound : q.inbound.closed = false

theorem write_of_encode {c' : σ} {buf : Bytes} (hw : p.writing = true)
    (hf : p.writer.failed = false) (hq : p.outbound.queue = m :: ms)
    (he : E.encode p.writer.half.cipher (T.toFrame m) = (.ok buf, c')) :
    ∃ w : Writer σ (Frame φ), w.failed = false ∧ p.step T E D (.write .complete) =
      some { p with outbound := { p.outbound with queue := ms }, writer := w } := by
  refine ⟨{ p.writer with
    half := ⟨c'⟩
    wire := p.writer.wire ++ buf
    sent := p.writer.sent ++ [T.toFrame m] }, hf, ?_⟩
  simp [step, write, hw, hq, Writer.step, WriteAction.written, WriteAction.frame,
    NoiseTcpWriteHalf.writeFrame, he, Writer.Takes, hf, Writer.ends, Except.toOption, Except.map]

theorem Steps.writing {a : PeerAction ψ} (hs : p.Steps T E D a p') (h : p'.writing = true) :
    p.writing = true := by
  cases hs with
  | fails     => cases h
  | endWriter => cases h
  | _ => exact h

theorem Steps.closed {a : PeerAction ψ} (hs : p.Steps T E D a p') :
    p'.reader.closed = p.reader.closed := by
  cases hs with
  | reads hst _      => exact Reader.step_closed hst
  | forwards _ hst _ => exact Reader.step_closed hst
  | stops hst _      => exact Reader.step_closed hst
  | _ => rfl

end Peer

namespace Link

variable {s s₁ s₂ s₃ : Link σ τ φ ψ ε} {x : Side} {cs : Side → σ} {ds : Side → τ} {n : ℕ}

-- Steps that lead from one state to another. No owner of an end sends or closes anything in them.
def Leads (T : Forwarding φ ψ) (E : Encoder σ (Frame φ) ε') (D : Decoder τ (Frame φ) ε)
    (cs : Side → σ) (ds : Side → τ) (s s' : Link σ τ φ ψ ε) : Prop :=
  ∃ tr, (machine T E D cs ds).Path s tr s' ∧
    ∀ e ∈ tr, ∀ y m, e.act ≠ .peer y (.send m) ∧ e.act ≠ .peer y .close

theorem Leads.refl : Leads T E D cs ds s s :=
  ⟨[], .nil, fun _ h => by cases h⟩

theorem Leads.trans (h : Leads T E D cs ds s₁ s₂) (h' : Leads T E D cs ds s₂ s₃) :
    Leads T E D cs ds s₁ s₃ := by
  obtain ⟨tr, p, ho⟩ := h
  obtain ⟨tr', p', ho'⟩ := h'
  exact ⟨tr ++ tr', p.trans p', List.forall_mem_append.mpr ⟨ho, ho'⟩⟩

theorem Leads.of_step {a : LinkAction ψ} (h : s.step T E D a = some s₁)
    (ha : ∀ y m, a ≠ .peer y (.send m) ∧ a ≠ .peer y .close) : Leads T E D cs ds s s₁ := by
  refine ⟨[] ++ [⟨s, a, s₁⟩], .snoc .nil h, fun e he => ?_⟩
  cases List.mem_singleton.mp he
  exact ha

theorem step_peer {a : PeerAction ψ} {p : Peer σ τ φ ψ ε}
    (h : (s.peer x).step T E D a = some p) : s.step T E D (.peer x a) = some (s.set x p) :=
  Option.map_eq_some_iff.mpr ⟨p, h, rfl⟩

-- A direction with all that its proofs go on with.
structure Flows (T : Forwarding φ ψ) (E : Encoder σ (Frame φ) ε') (D : Decoder τ (Frame φ) ε)
    (cs : Side → σ) (ds : Side → τ) (s : Link σ τ φ ψ ε) (x : Side) : Prop where
  joined  : Joined T E D (cs x) (ds x.other) (s.peer x) (s.peer x.other)
  working : Peer.Working (s.peer x) (s.peer x.other)
  opened  : (s.peer x.other).reader.closed = false

theorem Flows.sender {a : PeerAction ψ} {p : Peer σ τ φ ψ ε} (h : Flows T E D cs ds s x)
    (hs : (s.peer x).step T E D a = some p) (ha : ∀ m, a ≠ .send m ∧ a ≠ .close)
    (hw : Peer.Working p (s.peer x.other)) :
    Leads T E D cs ds s (s.set x p) ∧ Flows T E D cs ds (s.set x p) x := by
  have hst := step_peer hs
  have hj := h.joined.step (fun _ m he => absurd (LinkAction.peer.inj he).right (ha m).left) hst
  refine ⟨.of_step hst fun y m => ?_, hj, ?_, ?_⟩
  · simp only [ne_eq, LinkAction.peer.injEq, not_and]
    exact ⟨fun _ => (ha m).left, fun _ => (ha m).right⟩
  · rwa [set_peer_self, set_peer_of_ne Side.other_ne]
  · rw [set_peer_of_ne Side.other_ne]
    exact h.opened

theorem Flows.receiver {a : PeerAction ψ} {q : Peer σ τ φ ψ ε} (h : Flows T E D cs ds s x)
    (hs : (s.peer x.other).step T E D a = some q) (ha : ∀ m, a ≠ .send m ∧ a ≠ .close)
    (hw : Peer.Working (s.peer x) q) (ho : q.reader.closed = false) :
    Leads T E D cs ds s (s.set x.other q) ∧ Flows T E D cs ds (s.set x.other q) x := by
  have hst := step_peer hs
  have hj := h.joined.step (fun _ m he => absurd (LinkAction.peer.inj he).right (ha m).left) hst
  refine ⟨.of_step hst fun y m => ?_, hj, ?_, ?_⟩
  · simp only [ne_eq, LinkAction.peer.injEq, not_and]
    exact ⟨fun _ => (ha m).left, fun _ => (ha m).right⟩
  · rwa [set_peer_self, set_peer_of_ne Side.other_ne.symm]
  · rwa [set_peer_self]

-- What the network and the receiver leave of the sender.
@[simp]
theorem set_other_peer {q : Peer σ τ φ ψ ε} : (s.set x.other q).peer x = s.peer x :=
  set_peer_of_ne Side.other_ne.symm

-- The writer task empties its channel.
theorem Flows.writes (hE : E.Encodes) (h : Flows T E D cs ds s x) :
    ∃ s', Leads T E D cs ds s s' ∧ Flows T E D cs ds s' x ∧
      (s'.peer x).accepted = (s.peer x).accepted ∧ (s'.peer x).outbound.queue = [] := by
  generalize hq : (s.peer x).outbound.queue = ms
  induction ms generalizing s with
  | nil         => exact ⟨s, .refl, h, rfl, hq⟩
  | cons m ms ih =>
    obtain ⟨_, _, _, hs⟩ := h.joined.sends
    have hm : m ∈ (s.peer x).accepted := by simp [(hs.running h.working.writing).right.right, hq]
    obtain ⟨buf, c', he⟩ :=
      hE.encodes (s.peer x).writer.half.cipher _ (h.joined.sv2 m hm)
    obtain ⟨w, hw, hst⟩ :=
      Peer.write_of_encode (D := D) h.working.writing h.working.socket hq he
    obtain ⟨hl, hf⟩ := h.sender hst (by simp)
      ⟨h.working.writing, hw, h.working.reading, h.working.inbound⟩
    obtain ⟨s', hl', hf', ha, hq'⟩ := ih hf (by rw [set_peer_self])
    exact ⟨s', hl.trans hl', hf', by rw [ha, set_peer_self], hq'⟩

-- All bytes of the wire arrive.
theorem Flows.arrives (h : Flows T E D cs ds s x) :
    ∃ s', Leads T E D cs ds s s' ∧ Flows T E D cs ds s' x ∧ s'.peer x = s.peer x ∧
      (s'.peer x.other).arrived = (s.peer x).writer.wire := by
  have hst : (s.peer x.other).reader.step D (.arrive (s.transit x.other)) = some
      { (s.peer x.other).reader with
        arrived := (s.peer x.other).reader.arrived ++ s.transit x.other } := by
    simp [Reader.step, h.opened]
  have hs : s.step T E D (.arrive x.other (s.transit x.other).length) =
      some (s.set x.other { s.peer x.other with reader := { (s.peer x.other).reader with
        arrived := (s.peer x.other).reader.arrived ++ s.transit x.other } }) := by
    rw [step, List.take_length, network, hst]
    rfl
  refine ⟨_, .of_step hs fun _ _ => by simp, ⟨h.joined.step (fun _ _ ha => by cases ha) hs, ?_, ?_⟩,
    set_other_peer, ?_⟩
  · rw [set_peer_self, set_other_peer]
    exact ⟨h.working.writing, h.working.socket, h.working.reading, h.working.inbound⟩
  · rw [set_peer_self]
    exact h.opened
  · obtain ⟨rest, hrest⟩ := h.joined.arrived
    rw [set_peer_self, Peer.arrived, transit, Side.other_other, ← List.length_append, ← hrest,
      show (s.peer x.other).reader.consumed ++ (s.peer x.other).reader.arrived =
        (s.peer x.other).arrived from rfl, List.drop_left, ← List.append_assoc]
    rfl

-- A call of the reader task that starts, or goes on after it has let others run, comes to wait.
theorem Flows.calls (h : Flows T E D cs ds s x) (call : ReadCall)
    (hc : (s.peer x.other).reader.step D call.action =
      some ((s.peer x.other).reader.settle ((s.peer x.other).reader.half.readFrame D))) :
    ∃ s', Leads T E D cs ds s s' ∧ Flows T E D cs ds s' x ∧ s'.peer x = s.peer x ∧
      (s'.peer x.other).reader.call = some .read ∧
      (s'.peer x.other).reader.arrived = (s.peer x.other).reader.arrived ∧
      (s'.peer x.other).arrived = (s.peer x.other).arrived := by
  rw [h.joined.receives.synced.half.readFrame] at hc
  have hp : (s.peer x.other).step T E D (.read call) = some { s.peer x.other with
      reader := (s.peer x.other).reader.settle
        (.pending .read, (s.peer x.other).reader.half.resize D) } := by
    simp only [Peer.step, Peer.read, h.working.reading, if_true, hc, Option.map_some]
    simp [Reader.settle]
  obtain ⟨hl, hf⟩ := h.receiver hp (by simp)
    ⟨h.working.writing, h.working.socket, h.working.reading, h.working.inbound⟩ h.opened
  refine ⟨_, hl, hf, set_other_peer, ?_⟩
  rw [set_peer_self]
  exact ⟨rfl, rfl, rfl⟩

theorem Flows.waits (h : Flows T E D cs ds s x) :
    ∃ s', Leads T E D cs ds s s' ∧ Flows T E D cs ds s' x ∧ s'.peer x = s.peer x ∧
      (s'.peer x.other).reader.call = some .read ∧
      (s'.peer x.other).reader.arrived = (s.peer x.other).reader.arrived ∧
      (s'.peer x.other).arrived = (s.peer x.other).arrived := by
  cases hc : (s.peer x.other).reader.call with
  | none   => exact h.calls .start (if_pos hc)
  | some a =>
    cases a with
    | read     => exact ⟨s, .refl, h, rfl, hc, rfl, rfl⟩
    | yieldNow => exact h.calls .resume (if_pos hc)

theorem Flows.poll (hP : Paired E D P) (hcd : P (cs x) (ds x.other)) (h : Flows T E D cs ds s x)
    {r : Reader τ (Frame φ) ε} (hr : r = (s.peer x.other).reader.polled D (.bytes 1))
    (hst : (s.peer x.other).reader.step D (ReadCall.poll (.bytes 1)).action = some r) :
    ∃ ms, (s.peer x.other).step T E D (.read (.poll (.bytes 1))) = some { s.peer x.other with
      reader  := r
      inbound := { (s.peer x.other).inbound with
        queue := (s.peer x.other).inbound.queue ++ ms } } := by
  obtain hret | ⟨res, hret⟩ := Reader.step_returned hst
  case inl =>
    have hread : (s.peer x.other).step T E D (.read (.poll (.bytes 1))) =
        some { s.peer x.other with reader := r } := by
      simp only [Peer.step, Peer.read, h.working.reading, if_true, hst, Option.map_some, hret,
        List.drop_length]
    exact ⟨[], by rw [hread, List.append_nil]⟩
  case inr =>
    have hread : (s.peer x.other).step T E D (.read (.poll (.bytes 1))) =
        some (Peer.forward T { s.peer x.other with reader := r } res) := by
      simp only [Peer.step, Peer.read, h.working.reading, if_true, hst, Option.map_some, hret,
        List.drop_left]
    -- The state after the step tells what has been returned, whatever the task does with it.
    have hj := h.joined.step (fun _ _ ha => by cases ha) (step_peer hread)
    rw [set_peer_self, set_other_peer] at hj
    have hmem : res ∈ (Peer.forward T { s.peer x.other with reader := r } res).reader.returned := by
      have : (Peer.forward T { s.peer x.other with reader := r } res).reader = r := by
        simp only [Peer.forward]
        split
        case h_1 =>
          split
          case h_1 => split <;> rfl
          case h_2 => rfl
        case h_2 => rfl
      rw [this, hret]
      exact List.mem_concat_self
    obtain rfl | ⟨m, _, rfl⟩ := (hj.fifo hP hcd).right.left res hmem
    · exact absurd rfl (Reader.polled_returned (hr ▸ hret))
    · refine ⟨[m], ?_⟩
      rw [hread]
      simp [Peer.forward, (T.ofFrame_eq_some (T.toFrame m) m).mpr rfl, h.working.inbound]

-- The bytes that have arrived are read, and the frames that they end are forwarded.
theorem Flows.reads (hP : Paired E D P) (hcd : P (cs x) (ds x.other))
    (h : Flows T E D cs ds s x) : ∃ s', Leads T E D cs ds s s' ∧ Flows T E D cs ds s' x ∧
      s'.peer x = s.peer x ∧ (s'.peer x.other).reader.consumed = (s.peer x.other).arrived := by
  generalize hn : (s.peer x.other).reader.arrived.length = n
  induction n generalizing s with
  | zero      =>
    refine ⟨s, .refl, h, rfl, ?_⟩
    rw [Peer.arrived, List.length_eq_zero_iff.mp hn, List.append_nil]
  | succ n ih =>
    obtain ⟨s₁, hl₁, h₁, hp₁, hc, ha, hb⟩ := h.waits
    have hsync := h₁.joined.receives.synced
    have hg : (s₁.peer x.other).reader.Gives (s₁.peer x.other).reader.half (.bytes 1) := by
      refine ⟨Nat.one_pos, by rw [ha]; omega, ?_⟩
      rw [hsync.reading hc]
      exact hsync.half.room
    obtain ⟨ms, hst⟩ := h₁.poll hP hcd rfl (if_pos ⟨hc, hg⟩)
    have hclosed : ((s₁.peer x.other).reader.polled D (.bytes 1)).closed = false :=
      Reader.polled_closed.trans h₁.opened
    have hlen : ((s₁.peer x.other).reader.polled D (.bytes 1)).arrived.length = n := by
      rw [Reader.polled, Reader.settle_bytes.right, Reader.take, List.length_drop, ha, hn]
      rfl
    obtain ⟨hl₂, h₂⟩ := h₁.receiver hst (by simp)
      ⟨h₁.working.writing, h₁.working.socket, h₁.working.reading, h₁.working.inbound⟩ hclosed
    obtain ⟨s', hl', h', hp', hb'⟩ := ih h₂ (by rw [set_peer_self]; exact hlen)
    refine ⟨s', hl₁.trans (hl₂.trans hl'), h', by rw [hp', set_other_peer, hp₁], ?_⟩
    rw [hb', set_peer_self, (Peer.steps_of_step hst).arrived, hb]

-- The owner of the end takes the messages out of the channel.
theorem Flows.takes (h : Flows T E D cs ds s x) : ∃ s', Leads T E D cs ds s s' ∧
    Flows T E D cs ds s' x ∧ s'.peer x = s.peer x ∧
    (s'.peer x.other).reader = (s.peer x.other).reader ∧
    (s'.peer x.other).inbound.queue = [] := by
  generalize hq : (s.peer x.other).inbound.queue = ms
  induction ms generalizing s with
  | nil          => exact ⟨s, .refl, h, rfl, rfl, hq⟩
  | cons m ms ih =>
    have hst : (s.peer x.other).step T E D .recv = some { s.peer x.other with
        inbound  := { (s.peer x.other).inbound with queue := ms }
        received := (s.peer x.other).received ++ [m] } := by
      simp only [Peer.step, Peer.recv, hq]
    obtain ⟨hl, hf⟩ := h.receiver hst (by simp)
      ⟨h.working.writing, h.working.socket, h.working.reading, h.working.inbound⟩ h.opened
    obtain ⟨s', hl', hf', hp, hr, hq'⟩ := ih hf (by rw [set_peer_self])
    exact ⟨s', hl.trans hl', hf', by rw [hp, set_other_peer], by rw [hr, set_peer_self], hq'⟩

-- The end of the stream arrives once the writer task of the other side has ended.
def Opened (s : Link σ τ φ ψ ε) : Prop :=
  ∀ x : Side, (s.peer x).writing = true → (s.peer x.other).reader.closed = false

theorem Opened.set {y : Side} {p : Peer σ τ φ ψ ε} (h : Opened s)
    (hw : p.writing = true → (s.peer y).writing = true)
    (hc : p.reader.closed = true →
      (s.peer y).reader.closed = true ∨ (s.peer y.other).writing = false) : Opened (s.set y p) := by
  intro x hx
  obtain rfl | rfl := Side.eq_or_eq_other y x
  · rw [set_peer_of_ne Side.other_ne]
    rw [set_peer_self] at hx
    exact h y (hw hx)
  · rw [set_other_peer] at hx
    rw [set_peer_self, ← Bool.not_eq_true]
    intro hcl
    obtain hcl | hcl := hc hcl
    · exact absurd (h x hx) (by simp [hcl])
    · rw [Side.other_other, hx] at hcl
      cases hcl

theorem Opened.step {a : LinkAction ψ} (h : Opened s) (hs : s.step T E D a = some s₁) :
    Opened s₁ := by
  cases a with
  | peer y b   =>
    obtain ⟨p', hst, rfl⟩ := Option.map_eq_some_iff.mp hs
    have hst := Peer.steps_of_step hst
    exact h.set hst.writing fun hc => .inl (hst.closed.symm.trans hc)
  | arrive y n =>
    obtain ⟨r, hst, rfl⟩ := Option.map_eq_some_iff.mp hs
    simp only [Reader.step, Option.ite_none_left_eq_some, Option.some_inj] at hst
    obtain ⟨_, rfl⟩ := hst
    exact h.set id .inl
  | fin y      =>
    simp only [Link.step, Option.ite_none_right_eq_some] at hs
    obtain ⟨⟨hw, _⟩, hs⟩ := hs
    obtain ⟨r, hst, rfl⟩ := Option.map_eq_some_iff.mp hs
    exact h.set id fun _ => .inr hw

theorem opened_of_run {tr : List (Machine.Event (Link σ τ φ ψ ε) (LinkAction ψ))}
    (r : (machine T E D cs ds).Run tr s) : Opened s := by
  refine r.reachable.invariant ?_ fun _ _ _ h hs => h.step hs
  rintro _ rfl _ _
  rfl

-- No run leaves a message behind: as long as the tasks of a direction are at work, what has been sent
-- can still be received to its end, whatever calls have been cancelled on the way.
theorem delivers_of_run {tr : List (Machine.Event (Link σ τ φ ψ ε) (LinkAction ψ))}
    (hP : Paired E D P) (hcd : ∀ x : Side, P (cs x) (ds x.other)) (hE : E.Encodes)
    (r : (machine T E D cs ds).Run tr s) (hc : Machine.Along (OfSession T) tr)
    (hw : Peer.Working (s.peer x) (s.peer x.other)) :
    ∃ s', Leads T E D cs ds s s' ∧ (s'.peer x.other).received = (s.peer x).accepted := by
  have hf : Flows T E D cs ds s x := ⟨joined_of_run r hc x, hw, opened_of_run r x hw.writing⟩
  obtain ⟨s₁, hl₁, h₁, ha, hq⟩ := hf.writes hE
  obtain ⟨s₂, hl₂, h₂, hp₂, hb⟩ := h₁.arrives
  obtain ⟨s₃, hl₃, h₃, hp₃, he⟩ := h₂.reads hP (hcd x)
  obtain ⟨s₄, hl₄, h₄, hp₄, hr, hi⟩ := h₃.takes
  refine ⟨s₄, hl₁.trans (hl₂.trans (hl₃.trans hl₄)), ?_⟩
  have hp : s₄.peer x = s₁.peer x := by rw [hp₄, hp₃, hp₂]
  have hwire : (s₄.peer x.other).reader.consumed = (s₄.peer x).writer.wire := by
    rw [hr, he, hb, hp]
  have hall := (h₄.joined.fifo hP (hcd x)).right.right h₄.working.writing h₄.working.reading hwire
  rw [hi, List.append_nil, hp, hq, List.append_nil, ha] at hall
  exact hall.symm

namespace Sample

-- The second frame has been sent, and a part of the first one read by a call that is cancelled.
def sent : List (LinkAction UInt8) := [
  .peer .initiator (.send 5), .peer .initiator (.write .complete), .arrive .responder 1,
  .peer .responder (.read .start), .peer .responder (.read (.poll (.bytes 1))),
  .peer .responder (.notice false), .peer .initiator (.send 6)]

theorem sent_exec : (sample.exec (start (fun _ => 0) fun _ => 0) sent).any fun s =>
    (s.peer .initiator).accepted = [5, 6] ∧ (s.peer .initiator).writing = true ∧
      (s.peer .initiator).writer.failed = false ∧ (s.peer .responder).reading = true ∧
      (s.peer .responder).inbound.closed = false := by
  decide +kernel

theorem encoder_encodes : encoder.Encodes where
  encodes
    | n, .sv2 f, _ => ⟨[.ofNat n, f], n + 1, rfl⟩

end Sample

open Sample in
theorem delivers_of_run_sample : ∃ tr s s', sample.Run tr s ∧
    Leads spawnIoTasks encoder decoder (fun _ => 0) (fun _ => 0) s s' ∧
    (s'.peer .responder).received = [5, 6] := by
  obtain ⟨s, hs, hr⟩ := Option.any_eq_true _ _ |>.mp sent_exec
  obtain ⟨ha, hw, hf, hr, hc⟩ := of_decide_eq_true hr
  have r : sample.Run _ s := .of_exec rfl hs
  have hcd (x : Side) : (fun _ : Side => 0) x = (fun _ : Side => 0) x.other := rfl
  obtain ⟨s', hl, hr'⟩ := delivers_of_run (x := .initiator) paired hcd encoder_encodes r
    (fun _ _ => ofSession_spawnIoTasks) ⟨hw, hf, hr, hc⟩
  exact ⟨_, s, s', r, hl, hr'.trans ha⟩

end Link

end Network
