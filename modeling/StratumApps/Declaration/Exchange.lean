import StratumApps.JobDeclaratorClient.Records
import StratumApps.JobDeclaratorServer.Transactions

open Sv2 Handler StratumCore

namespace Jds

variable {Tx : Type} {R : RolesLogic Tx} {cfg : Config} {c : ClientId} {job : DeclareMiningJob}

section Tokens

variable {d d' : JobDeclaratorDownstream Tx} {m : JdsMempool R} {token : UInt32} {bytes : Bytes}

theorem u32FromLeBytes_u32ToLeBytes : u32FromLeBytes (u32ToLeBytes token) = some token := by
  rw [u32ToLeBytes, u32FromLeBytes, Option.some_inj, ← UInt32.toBitVec_inj]
  apply BitVec.eq_of_getLsbD_eq
  intro i hi
  have h8 : (UInt32.toBitVec 8 % 32).toNat = 8 := rfl
  have h16 : (UInt32.toBitVec 16 % 32).toNat = 16 := rfl
  have h24 : (UInt32.toBitVec 24 % 32).toNat = 24 := rfl
  simp only [UInt32.toBitVec_or, UInt32.toBitVec_shiftLeft, UInt8.toBitVec_toUInt32,
    UInt32.toBitVec_toUInt8, UInt32.toBitVec_shiftRight, BitVec.getLsbD_or, BitVec.getLsbD_setWidth,
    BitVec.shiftLeft_eq', BitVec.ushiftRight_eq', BitVec.getLsbD_shiftLeft,
    BitVec.getLsbD_ushiftRight, h8, h16, h24]
  -- Each bit comes from the byte that it is in.
  grind

theorem length_of_u32FromLeBytes (h : u32FromLeBytes bytes = some token) : bytes.length = 4 := by
  rw [u32FromLeBytes.eq_def] at h
  split at h
  case h_1 => rfl
  case h_2 => cases h

theorem signedToken_of_length (R : RolesLogic Tx) (privateKey : Bytes) {token : B0255}
    (h : token.1.length = 4) : ∃ bytes, signedToken R token privateKey = .ok bytes := by
  have hl : (UInt8.ofNat token.1.length :: token.1).length ≤ 255 := by
    rw [List.length_cons, h]
    decide
  exact ⟨_, if_pos hl⟩

theorem Flushed.tokenToJobMap (h : Flushed d d') : d'.tokenToJobMap = d.tokenToJobMap := by
  cases h with
  | inl h => rw [h]
  | inr h => rw [h]

namespace JobDeclaratorDownstream

theorem takeDeclaredMiningJob_tokenToJobMap :
    (d.takeDeclaredMiningJob m job).2.tokenToJobMap = d.tokenToJobMap := by
  rw [takeDeclaredMiningJob]
  split <;> rfl

theorem handleDeclareMiningJob_tokens {reply : JobDeclaration}
    (h : d.handleDeclareMiningJob m job = .ok (.respond reply, d')) :
    d'.tokenToJobMap = d.tokenToJobMap ∧ ∀ r, reply ≠ .allocateMiningJobTokenSuccess r := by
  rw [handleDeclareMiningJob, bind_eq_ok] at h
  obtain ⟨verified, _, h⟩ := h
  split at h
  case isFalse =>
    cases h
    exact ⟨rfl, fun _ h => by cases h⟩
  case isTrue =>
    simp only [bind_eq_ok] at h
    obtain ⟨_, _, h⟩ := h
    split at h <;> cases h
    all_goals exact ⟨rfl, fun _ h => by cases h⟩

end JobDeclaratorDownstream

open JobDeclaratorDownstream

-- A client has every token that it was told of.
def Told (x : Session Tx) : Prop :=
  ∀ r, .allocateMiningJobTokenSuccess r ∈ x.sent →
    ∃ token, u32FromLeBytes r.miningJobToken = some token ∧ token ∈ x.downstream.tokenToJobMap

variable {x x' : Session Tx} {s s' : Server R} {a : Action Tx}

theorem Told.answered {reply : JobDeclaration} {task : Task Tx} (h : Told x)
    (ht : d.tokenToJobMap = x.downstream.tokenToJobMap)
    (hr : ∀ r, reply ≠ .allocateMiningJobTokenSuccess r) : Told ⟨d, task, x.sent ++ [reply]⟩ := by
  intro r hm
  cases List.mem_append.mp hm with
  | inl hm => exact ht ▸ h r hm
  | inr hm => exact absurd (List.mem_singleton.mp hm).symm (hr r)

theorem Told.step {message : Option JobDeclaration} (h : Told x) (hs : x.Step m message x') :
    Told x' := by
  cases hs with
  | allocate he hf =>
    cases he
    intro r hm
    rw [hf.tokenToJobMap]
    cases List.mem_append.mp hm with
    | inl hm =>
      obtain ⟨token, hu, ht⟩ := h r hm
      exact ⟨token, hu, AList.mem_insert _ |>.mpr (.inr ht)⟩
    | inr hm =>
      cases List.mem_singleton.mp hm
      exact ⟨_, u32FromLeBytes_u32ToLeBytes, AList.mem_insert _ |>.mpr (.inl rfl)⟩
  | take =>
    intro r hm
    rw [takeDeclaredMiningJob_tokenToJobMap]
    exact h r hm
  | declare _ he hf =>
    obtain ⟨ht, hr⟩ := handleDeclareMiningJob_tokens he
    exact h.answered (hf.tokenToJobMap.trans ht) hr
  | provide _ he hf =>
    obtain ⟨_, _, _, _, _, _, _, ⟨_, rfl⟩, rfl⟩ := handleProvideMissingTransactionsSuccess_eq_ok he
    exact h.answered hf.tokenToJobMap fun _ h => by cases h
  | work => exact h

theorem Server.told_step (h : s.Sessions Told) (hs : s.step cfg a = some s') : s'.Sessions Told := by
  intro c x' hx'
  cases step_session hs hx'
  case inl hn =>
    rw [hn.right]
    intro _ hm
    cases hm
  case inr hm =>
    obtain ⟨x, hx, rfl | ⟨_, hm⟩⟩ := hm
    · exact h c x' hx
    · exact (h c x hx).step hm

theorem Server.told_of_run {tr : List (Machine.Event (Server R) (Action Tx))}
    (r : (machine R cfg).Run tr s) : s.Sessions Told :=
  r.reachable.invariant (I := fun s => s.Sessions Told) (fun _ => sessions_of_init)
    fun _ _ _ => told_step

end Tokens

namespace JobDeclaratorDownstream

variable {d : JobDeclaratorDownstream Tx} {m : JdsMempool R} {token : UInt32}

-- The data of a client with a job that it has declared.
def declared (d : JobDeclaratorDownstream Tx) (m : JdsMempool R) (job : DeclareMiningJob) :
    JobDeclaratorDownstream Tx :=
  { d with
    declaredMiningJob     := some job
    transactionsWithState := transactionStates m job.txIdsList.1
    missingTxs            := missingPositions m job.txIdsList.1
    addTxsToMempool       := { d.addTxsToMempool with
      knownTransactions :=
        d.addTxsToMempool.knownTransactions ++ job.txIdsList.1.filter (· ∈ m.mempool) } }

theorem declared_tracks (hu : u32FromLeBytes job.miningJobToken.1 = some token) :
    (d.declared m job).Tracks job :=
  tracks_declared (length_of_u32FromLeBytes hu) rfl rfl

theorem declared_agrees : (d.declared m job).Agrees job :=
  agrees_declared (m := m) rfl

-- A declaration under a token of the client is answered with success, or with the request for what
-- the mempool lacks.
theorem handleDeclareMiningJob_of_token (m : JdsMempool R)
    (hu : u32FromLeBytes job.miningJobToken.1 = some token) (ht : token ∈ d.tokenToJobMap) :
    (missingPositions m job.txIdsList.1 = [] ∧ ∃ r, r.requestId = job.requestId ∧
      d.handleDeclareMiningJob m job = .ok (.respond (.declareMiningJobSuccess r), d.declared m job)) ∨
    d.handleDeclareMiningJob m job = .ok (.respond (.provideMissingTransactions
      ⟨job.requestId, missingPositions m job.txIdsList.1⟩), d.declared m job) := by
  obtain ⟨signed, hs⟩ := signedToken_of_length R d.privateKey (length_of_u32FromLeBytes hu)
  have hv : d.verifyJob job = .ok true := by simp [verifyJob, hu, ht]
  by_cases hm : missingPositions m job.txIdsList.1 = []
  case pos =>
    refine .inl ⟨hm, ⟨job.requestId, signed⟩, rfl, ?_⟩
    simp only [handleDeclareMiningJob, hv, hs, bind, Except.bind, if_true, if_pos hm]
    rfl
  case neg =>
    right
    simp only [handleDeclareMiningJob, hv, hs, bind, Except.bind, if_true, if_neg hm]
    rfl

end JobDeclaratorDownstream

namespace Server

open JobDeclaratorDownstream

variable {s s' : Server R} {x x' : Session Tx} {tr : List (Machine.Event (Server R) (Action Tx))}

-- The task of the client waits, and the declaration is made with a token that the client was sent.
def Ready (s : Server R) (c : ClientId) (job : DeclareMiningJob) : Prop :=
  ∃ x r, s.clients.lookup c = some x ∧ x.task = .recv ∧
    .allocateMiningJobTokenSuccess r ∈ x.sent ∧ r.miningJobToken = job.miningJobToken.1

-- The client was told that its declaration is a success, and its job holds the declared ids in
-- their order.
def Agreed (s : Server R) (c : ClientId) (job : DeclareMiningJob) : Prop :=
  ∃ x r, s.clients.lookup c = some x ∧ x.downstream.declaredMiningJob = some job ∧
    x.downstream.transactionsWithState = job.txIdsList.1.map .presentInMempool ∧
    x.sent.getLast? = some (.declareMiningJobSuccess r) ∧ r.requestId = job.requestId

-- The client was asked for transactions, and its task waits for them.
def Asked (s : Server R) (c : ClientId) (request : ProvideMissingTransactions) : Prop :=
  ∃ x, s.clients.lookup c = some x ∧ x.task = .recv ∧
    x.sent.getLast? = some (.provideMissingTransactions request)

-- The data of the requested transactions are queued for the mempool, and no others.
def Queues (s s' : Server R) (txList : List Bytes) (request : ProvideMissingTransactions) : Prop :=
  ∃ inner, s'.addTxs = s.addTxs ++ [inner] ∧
    List.Forall₂ (fun p tx => ∃ raw, txList[p.toNat]? = some raw ∧ R.consensusDecode raw = .ok tx)
      request.unknownTxPositionList inner.unknownTransactions

-- The other tasks of the server go on while the one of the client does not.
def Rests (c : ClientId) (tr : List (Machine.Event (Server R) (Action Tx))) : Prop :=
  ∀ e ∈ tr, e.act.client? ≠ some c

theorem lookup_of_rests (p : (machine R cfg).Path s tr s') (hr : Rests c tr) (hc : c < s.nextClient) :
    c < s'.nextClient ∧ s'.clients.lookup c = s.clients.lookup c := by
  induction p with
  | nil => exact ⟨hc, rfl⟩
  | snoc _ hst ih =>
    obtain ⟨hr, hl⟩ := List.forall_mem_append.mp hr
    obtain ⟨hn, he⟩ := ih hr
    have hl := hl _ (List.mem_singleton_self _)
    exact ⟨hn.trans_le (step_nextClient_le hst), (step_lookup hst hn hl).trans he⟩

section Steps

variable {token : UInt32} {positions : List UInt16} {txs : List Tx}
variable {reply : ProvideMissingTransactionsSuccess}

-- A session that has asked for the transactions at some positions.
structure Awaits (x : Session Tx) (job : DeclareMiningJob) (positions : List UInt16) : Prop where
  waits   : x.task = .recv
  asked   : x.sent.getLast? = some (.provideMissingTransactions ⟨job.requestId, positions⟩)
  current : x.downstream.declaredMiningJob = some job
  missing : x.downstream.missingTxs = positions
  flushed : x.downstream.addTxsToMempool = ⟨[], []⟩
  tracks  : x.downstream.Tracks job
  agrees  : x.downstream.Agrees job

theorem run_declares (cfg : Config) (hx : s.clients.lookup c = some x) (ht : x.task = .declare job)
    (hu : u32FromLeBytes job.miningJobToken.1 = some token) (hm : token ∈ x.downstream.tokenToJobMap) :
    ∃ s', s.step cfg (.run c) = some s' ∧ s'.nextClient = s.nextClient ∧
      (missingPositions s.mempool job.txIdsList.1 = [] ∧ s'.Agreed c job ∨
        ∃ x', s'.clients.lookup c = some x' ∧
          Awaits x' job (missingPositions s.mempool job.txIdsList.1)) := by
  have hr : s.step cfg (.run c) =
      some (s.deliver c x (x.downstream.handleDeclareMiningJob s.mempool job)) := by
    simp only [step, hx, Option.bind_some, runSession, ht]
  refine ⟨_, hr, deliver_nextClient, ?_⟩
  obtain ⟨hn, r, hr, hd⟩ | hd := handleDeclareMiningJob_of_token s.mempool hu hm
  case inl =>
    rw [hd]
    refine .inl ⟨hn, _, r, setSession_lookup, rfl, ?_, List.getLast?_concat, hr⟩
    have ht : (x.downstream.declared s.mempool job).Tracks job := declared_tracks hu
    exact declared_agrees.states_eq ht.length (missing_notMem_of_missingPositions hn)
  case inr =>
    rw [hd]
    have ht : (x.downstream.declared s.mempool job).Tracks job := declared_tracks hu
    refine .inr ⟨_, setSession_lookup, rfl, List.getLast?_concat, rfl, rfl, rfl, ht.congr rfl rfl, ?_⟩
    exact declared_agrees (d := x.downstream) (m := s.mempool)

theorem receive_provides (cfg : Config) (hx : s.clients.lookup c = some x) (ha : Awaits x job positions)
    (hr : reply.requestId = job.requestId)
    (hd : reply.transactionList.1.map R.consensusDecode = txs.map .ok)
    (hl : positions.length = txs.length)
    (hp : ∀ p ∈ positions.zip txs, job.txIdsList.1[p.1.toNat]? = some (R.computeTxid p.2)) :
    ∃ s', s.step cfg (.receive c (.provideMissingTransactionsSuccess reply)) = some s' ∧
      s'.Agreed c job ∧ s'.addTxs = s.addTxs ++ [⟨[], txs⟩] := by
  obtain ⟨hw, _, hj, rfl, hf, ht, hg⟩ := ha
  have hc : Completes R x.downstream job reply txs := by
    refine ⟨hj, hr.symm, hd, hl.ge, fun i hi => ?_⟩
    rw [← hl, List.take_length]
    obtain ⟨p, hp, rfl⟩ := ht.missing i hi
    exact List.mem_map_of_mem hp
  obtain ⟨r, hh, hr'⟩ := hc.handle ht
  have hs : s.step cfg (.receive c (.provideMissingTransactionsSuccess reply)) =
      some (s.deliver c x (.ok (.respond (.declareMiningJobSuccess r),
        supplied R x.downstream txs))) := by
    simp only [step, hx, Option.bind_some, hw, receive, hh]
  refine ⟨_, hs, ⟨_, r, setSession_lookup, hj, ?_, List.getLast?_concat, hr'.trans hr⟩, ?_⟩
  · exact (hg.supplied ht hp).states_eq ht.supplied.length (hc.missing_notMem ht)
  · show s.addTxs ++ [(supplied R x.downstream txs).addTxsToMempool] = _
    rw [supplied, hf, List.nil_append]

end Steps

end Server

end Jds

-- The client and the server of a declaration, each with a run of its own behind it.
namespace Declaration

open Jds Jds.Server Jds.JobDeclaratorDownstream

variable {C : StratumCore} {Tx : Type} {R : RolesLogic Tx} {cfg : Jdc.Config} {cfg' : Jds.Config}
variable {s : Jdc.ChannelManager C} {t t' : Server R} {c : ClientId} {job : DeclareMiningJob}
variable {txList : List Bytes} {positions : List UInt16} {m : JdsMempool R}

-- The server decodes what the client decodes, as a transaction with the same id.
def Decodes (C : StratumCore) (R : RolesLogic Tx) : Prop :=
  ∀ raw txid, C.computeTxid raw = .ok txid →
    ∃ tx, R.consensusDecode raw = .ok tx ∧ R.computeTxid tx = txid

-- The client answers a request with its transactions at the positions, in their order.
structure Answers (s : Jdc.ChannelManager C) (txList : List Bytes)
    (request : ProvideMissingTransactions) (reply : ProvideMissingTransactionsSuccess) : Prop where
  sends : s.handleJobDeclarationMessageFromServer (.provideMissingTransactions request) = .ok {
    manager  := s
    messages := [.jobDeclarator (.provideMissingTransactionsSuccess reply)] }
  order : reply.transactionList.1.map some = request.unknownTxPositionList.map (txList[·.toNat]?)

-- The exchange of a declaration: the server takes it, and once its task has run it has settled it,
-- or has asked for what the mempool lacked by then, and settles it with the answer. Between the steps
-- of this task, all others may go on.
def Settles (cfg' : Jds.Config) (s : Jdc.ChannelManager C) (t : Server R) (c : ClientId)
    (job : DeclareMiningJob) (txList : List Bytes) : Prop :=
  ∃ t₁, t.step cfg' (.receive c (.declareMiningJob job)) = some t₁ ∧
    ∀ tr₁ t₂, (Jds.machine R cfg').Path t₁ tr₁ t₂ → Rests c tr₁ →
      ∃ t₃, t₂.step cfg' (.run c) = some t₃ ∧
        (missingPositions t₂.mempool job.txIdsList.1 = [] ∧ t₃.Agreed c job ∨
          ∃ request reply, t₃.Asked c request ∧
            request.unknownTxPositionList = missingPositions t₂.mempool job.txIdsList.1 ∧
            Answers s txList request reply ∧
            ∀ tr₂ t₄, (Jds.machine R cfg').Path t₃ tr₂ t₄ → Rests c tr₂ →
              ∃ t₅, t₄.step cfg' (.receive c (.provideMissingTransactionsSuccess reply)) = some t₅ ∧
                t₅.Agreed c job ∧ t₄.Queues t₅ txList request)

section Reply

variable {raws : List Bytes}

-- The transactions at the positions, as the server decodes them.
theorem decodes_reply (hR : Decodes C R)
    (ht : List.Forall₂ (fun raw txid => C.computeTxid raw = .ok txid) txList job.txIdsList.1)
    (hr : raws.map some = positions.map (txList[·.toNat]?)) :
    ∃ txs, raws.map R.consensusDecode = txs.map .ok ∧
      List.Forall₂ (fun p tx => ∃ raw, txList[p.toNat]? = some raw ∧ R.consensusDecode raw = .ok tx)
        positions txs ∧
      ∀ p ∈ positions.zip txs, job.txIdsList.1[p.1.toNat]? = some (R.computeTxid p.2) := by
  induction positions generalizing raws with
  | nil =>
    have hr : raws = [] := by simpa using hr
    subst hr
    exact ⟨[], rfl, .nil, fun _ h => by cases h⟩
  | cons p positions ih =>
    cases raws with
    | nil => cases hr
    | cons raw raws =>
      obtain ⟨hp, hps⟩ := List.cons_eq_cons.mp hr
      obtain ⟨txs, hd, hl, ha⟩ := ih hps
      obtain ⟨hlt, he⟩ := List.getElem?_eq_some_iff.mp hp.symm
      have hlt' : p.toNat < job.txIdsList.1.length := ht.length_eq ▸ hlt
      have hid : C.computeTxid raw = .ok job.txIdsList.1[p.toNat] := he ▸ ht.get hlt hlt'
      obtain ⟨tx, hdec, hc⟩ := hR raw _ hid
      refine ⟨tx :: txs, by simp [hdec, hd], .cons ⟨raw, hp.symm, hdec⟩ hl, ?_⟩
      rw [List.zip_cons_cons, List.forall_mem_cons]
      refine ⟨?_, ha⟩
      rw [hc]
      exact List.getElem?_eq_getElem hlt'

end Reply

theorem settles_of_ready (hR : Decodes C R) (hs : s.Lists) (hm : s.Remembers job txList)
    (ht : t.Started) (htold : t.Sessions Told) (hx : t.Ready c job) :
    Settles cfg' s t c job txList := by
  obtain ⟨x, r, hx, hrecv, hr, htoken⟩ := hx
  obtain ⟨token, hu, htoken'⟩ := htold c x hx r hr
  rw [htoken] at hu
  have hc : c < t.nextClient := ht.issued c (Map.mem_iff_lookup.mpr ⟨x, hx⟩)
  have htx : List.Forall₂ (fun raw txid => C.computeTxid raw = .ok txid) txList job.txIdsList.1 := by
    obtain ⟨declared, hl, hd, rfl⟩ := hm
    exact (hs _ declared job hl hd).right
  have hstep : t.step cfg' (.receive c (.declareMiningJob job)) =
      some (t.receive c x (.declareMiningJob job)) := by
    simp only [step, hx, Option.bind_some, hrecv]
  refine ⟨_, hstep, fun tr₁ t₂ p₁ hr₁ => ?_⟩
  obtain ⟨hc₂, hl₂⟩ := lookup_of_rests p₁ hr₁ hc
  obtain ⟨t₃, hrun, hn, hs₃⟩ := run_declares cfg' (hl₂.trans setSession_lookup) rfl hu
    (takeDeclaredMiningJob_tokenToJobMap.symm ▸ htoken')
  refine ⟨t₃, hrun, hs₃.imp_right fun ha => ?_⟩
  obtain ⟨x₃, hx₃, ha⟩ := ha
  have hb : ∀ p ∈ missingPositions t₂.mempool job.txIdsList.1, p.toNat < txList.length := by
    intro p hp
    rw [htx.length_eq]
    exact ha.tracks.bound p (ha.missing ▸ hp)
  have hle : (missingPositions t₂.mempool job.txIdsList.1).length ≤ 65535 := by
    rw [missingPositions, List.length_map]
    exact (List.length_filter_le ..).trans (List.length_zipIdx.trans_le job.txIdsList.2)
  obtain ⟨reply, hsends, hreply, horder⟩ :=
    hm.provides ⟨job.requestId, missingPositions t₂.mempool job.txIdsList.1⟩ rfl hb hle
  refine ⟨_, reply, ⟨x₃, hx₃, ha.waits, ha.asked⟩, rfl, ⟨hsends, horder⟩, fun tr₂ t₄ p₂ hr₂ => ?_⟩
  obtain ⟨_, hl₄⟩ := lookup_of_rests p₂ hr₂ (hn ▸ hc₂)
  obtain ⟨txs, hdec, htxs, hprov⟩ := decodes_reply hR htx horder
  obtain ⟨t₅, hst, hs₅, hq⟩ := receive_provides cfg' (hl₄.trans hx₃) ha hreply hdec
    htxs.length_eq hprov
  exact ⟨t₅, hst, hs₅, _, hq, htxs⟩

-- The run lemma: a declaration that the client sends is one it remembers, and as long as it does,
-- the exchange settles it, for every mempool of the server.
theorem settles_of_run (cfg' : Jds.Config) {tr : List (Machine.Event (Jdc.System C) Jdc.Action)}
    {s s' : Jdc.System C} {a : Jdc.Action} (hR : Decodes C R) (r : (Jdc.machine C cfg).Run tr s)
    (h : s.step cfg a = some s')
    (hj : job ∈ Jdc.declarations (Jdc.System.messages ⟨s, a, s'⟩)) :
    ∃ txList, s'.manager.Remembers job txList ∧
      ∀ tr₁ s₁, (Jdc.machine C cfg).Path s' tr₁ s₁ → s₁.manager.Remembers job txList →
        ∀ tr₂ (t : Server R) c, (Jds.machine R cfg').Run tr₂ t → t.Ready c job →
          Settles cfg' s₁.manager t c job txList := by
  obtain ⟨txList, hm⟩ := Jdc.System.remembers_of_step (Jdc.System.lists_of_run r) h hj
  refine ⟨txList, hm, fun tr₁ s₁ p hm₁ tr₂ t c r₂ hx => ?_⟩
  have r₁ := (r.snoc h).trans p
  exact settles_of_ready hR (Jdc.System.lists_of_run r₁) hm₁ (started_of_run r₂) (told_of_run r₂) hx

-- A client with a token of a server that knows the second one of the three transactions of its template.
namespace Several

-- A transaction has one byte, which is its id.
def computeTxid (raw : Bytes) : Txid :=
  BitVec.ofNat 256 (raw.headD 0).toNat

def core : StratumCore where
  __ := reference
  computeTxid raw := if raw.length = 1 then .ok (computeTxid raw) else .error "invalid transaction"

def roles : Jds.RolesLogic Bytes where
  __ := Jds.Sample.roles
  computeTxid         := computeTxid
  consensusDecode raw := if raw.length = 1 then .ok raw else .error "invalid transaction"

theorem core_decodes : Decodes core roles := by
  intro raw txid h
  have h : (if raw.length = 1 then .ok (computeTxid raw) else .error "invalid transaction") =
    (.ok txid : Except EncodeError U256) := h
  split at h <;> cases h
  case isTrue hl => exact ⟨raw, if_pos hl, rfl⟩

def start : Jdc.System core where
  manager := .new (C := core) ⟨[], 4, 0⟩ Jdc.Sample.rewardOutputs
  status  := .running
  sent    := []

theorem start_init : (Jdc.machine core (Jdc.Sample.config [] [])).Init start := by
  constructor <;> rfl

def server : Server roles where
  mempool    := .new roles Jds.Sample.config.coreRpcUrl
  clients    := ∅
  nextClient := 0
  addTxs     := []
  addTasks   := ∅
  nextTask   := 0
  newBlocks  := ⟨[], 0⟩

theorem server_init : (Jds.machine roles Jds.Sample.config).Init server :=
  ⟨rfl, by decide⟩

section

open Jdc.Sample

def begun : List Jdc.Action :=
  [.setJdMode .fullTemplate, .setUpstreamState .noChannel, future 1, prevHash 1, .connect,
    openExtended 0, opened, allocate [1, 0, 0, 0], newTemplate 2]

def data : Jdc.Action :=
  .templateMessage (.requestTransactionDataSuccess ⟨2, [], [[1], [2], [3]]⟩)

def served : List (Jds.Action Bytes) :=
  [.connect, .receive 0 (.allocateMiningJobToken ⟨[], 1⟩), .updateMempool [2]]

def token : AllocateMiningJobTokenSuccess where
  requestId       := 1
  miningJobToken  := [1, 0, 0, 0]
  coinbaseOutputs := Jds.Sample.config.coinbaseOutput

theorem begun_exec : ((Jdc.machine core (config [] [])).exec start begun).any fun s =>
    (s.step (config [] []) data).any fun s' =>
      (Jdc.declarations (Jdc.System.messages ⟨s, data, s'⟩)).any fun job =>
        job.miningJobToken.1 = token.miningJobToken ∧ job.txIdsList.1 = [1, 2, 3] := by
  decide +kernel

theorem served_exec : ((Jds.machine roles Jds.Sample.config).exec server served).any fun t =>
    (t.clients.lookup 0).any (fun x => x.task matches .recv && x.sent =
      [.allocateMiningJobTokenSuccess token]) &&
        missingPositions t.mempool [1, 2, 3] = [0, 2] := by
  decide +kernel

end

end Several

open Several in
theorem settles_of_run_sample : ∃ tr s s' job txList tr' t,
    (Jdc.machine core (Jdc.Sample.config [] [])).Run tr s ∧
    s.step (Jdc.Sample.config [] []) data = some s' ∧
    job ∈ Jdc.declarations (Jdc.System.messages ⟨s, data, s'⟩) ∧ job.txIdsList.1 = [1, 2, 3] ∧
    (Jds.machine roles Jds.Sample.config).Run tr' t ∧
    missingPositions t.mempool job.txIdsList.1 = [0, 2] ∧
    Settles Jds.Sample.config s'.manager t 0 job txList := by
  obtain ⟨s, hs, hc⟩ := Option.any_eq_true _ _ |>.mp begun_exec
  obtain ⟨s', hs', hc⟩ := Option.any_eq_true _ _ |>.mp hc
  obtain ⟨job, hj, hc⟩ := List.any_eq_true.mp hc
  obtain ⟨htoken, hids⟩ := of_decide_eq_true hc
  obtain ⟨t, ht, hx⟩ := Option.any_eq_true _ _ |>.mp served_exec
  obtain ⟨hx, hn⟩ := Bool.and_eq_true_iff.mp hx
  obtain ⟨x, hx, hw⟩ := Option.any_eq_true _ _ |>.mp hx
  obtain ⟨hw, hsent⟩ := Bool.and_eq_true_iff.mp hw
  have r := Machine.Run.of_exec start_init hs
  have r' := Machine.Run.of_exec server_init ht
  have hready : t.Ready 0 job := by
    refine ⟨x, token, hx, ?_, by simp [of_decide_eq_true hsent], htoken.symm⟩
    split at hw
    case h_1 h => exact h
    case h_2   => cases hw
  obtain ⟨txList, hm, h⟩ := settles_of_run Jds.Sample.config core_decodes r hs' hj
  exact ⟨_, s, s', job, txList, _, t, r, hs', hj, hids, r', hids ▸ of_decide_eq_true hn,
    h _ s' .nil hm _ t 0 r' hready⟩

end Declaration
