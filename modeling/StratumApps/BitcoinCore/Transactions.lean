import StratumApps.BitcoinCore.System

open Sv2 Handler

namespace BitcoinCore

-- The clients that the node hands out are those of its block templates.
def ServesBlocks (L : Library) (a : Action) : Prop :=
  ∀ client, a.client? = some client → ∃ coinbase txs, client.Serves L coinbase txs

namespace BitcoinCoreSv2

variable {L : Library} {s s' : BitcoinCoreSv2} {a : Action} {client : BlockTemplateIpcClient}
variable {t : TemplateData} {data : RequestTransactionDataSuccess}

-- What a step may store, and which answers it may send.
structure Step (L : Library) (s : BitcoinCoreSv2) (a : Action) (s' : BitcoinCoreSv2) : Prop where
  stored : ∀ id t, s'.templateData.lookup id = some t →
    s.templateData.lookup id = some t ∨ a.client? = some t.templateIpcClient
  sent   : ∀ data, .requestTransactionDataSuccess data ∈ s'.outgoingMessages →
    .requestTransactionDataSuccess data ∈ s.outgoingMessages ∨
      ∃ id t, s.templateData.lookup id = some t ∧
        t.getRequestTransactionDataSuccessMessage L = .ok data

theorem Step.of_eq (ht : s'.templateData = s.templateData)
    (ho : s'.outgoingMessages = s.outgoingMessages) : Step L s a s' where
  stored _ _ h := .inl (ht ▸ h)
  sent _ h := .inl (ho ▸ h)

theorem fetchTemplateData_client (h : s.fetchTemplateData L client = .ok t) :
    t.templateIpcClient = client := by
  simp only [fetchTemplateData, bind_eq_ok, pure_eq_ok] at h
  obtain ⟨_, _, _, _, _, _, _, _, _, _, rfl⟩ := h
  rfl

-- A template is stored, and messages other than the answers to a request are sent.
theorem Step.of_save (ha : a.client? = some client) (hc : t.templateIpcClient = client)
    (ht : s'.templateData = s.templateData.insert t.templateId t)
    {ms : List TemplateDistribution} (hm : ∀ data, .requestTransactionDataSuccess data ∉ ms)
    (ho : s'.outgoingMessages = s.outgoingMessages ++ ms) : Step L s a s' where
  stored id t' h := by
    rw [ht, Map.lookup_insert_ite] at h
    split at h
    case isTrue =>
      cases h
      exact .inr (hc ▸ ha)
    case isFalse => exact .inl h
  sent data h := by
    rw [ho] at h
    exact .inl ((List.mem_append.mp h).resolve_right (hm data))

theorem step_templatesFail {ε : Type} {s₁ : BitcoinCoreSv2} {e : Fault ε} (h : Step L s a s₁) :
    Step L s a (s₁.templatesFail e) := by
  cases e with
  | err e      => exact ⟨h.stored, h.sent⟩
  | panicked m => exact ⟨h.stored, h.sent⟩

theorem step_run (ha : a.client? = some client) : Step L s a (s.run L client) := by
  rw [run]
  split
  case h_1 => exact .of_eq rfl rfl
  case h_2 t ht =>
    split
    case h_1 => exact .of_eq rfl rfl
    case h_2 => exact .of_save ha (fetchTemplateData_client ht) rfl (by simp) rfl

theorem step_onNextTemplate (ha : a.client? = some client) :
    Step L s a (s.onNextTemplate L client) := by
  rw [onNextTemplate]
  split
  case isTrue => exact .of_eq rfl rfl
  case isFalse =>
    split
    case h_1 => exact step_templatesFail (.of_eq rfl rfl)
    case h_2 t ht =>
      have hc := fetchTemplateData_client ht
      split
      case h_1 => exact .of_eq rfl rfl
      case h_2 =>
        split
        case isTrue =>
          dsimp only
          split
          case h_1 =>
            have hs : s.outgoingMessages = s.outgoingMessages ++ [] := (List.append_nil _).symm
            exact step_templatesFail (.of_save ha hc rfl (by simp) hs)
          case h_2 => exact .of_save ha hc rfl (by simp) rfl
        case isFalse =>
          split
          case h_1 => exact step_templatesFail (.of_eq rfl rfl)
          case h_2 => exact .of_save ha hc rfl (by simp) rfl

theorem step_handleRequestTransactionData {msg : RequestTransactionData} :
    Step L s a (s.handleRequestTransactionData L msg) := by
  have error (e : RequestTransactionDataError) :
      Step L s a (s.send [.requestTransactionDataError e]) :=
    ⟨fun _ _ h => .inl h, fun data h => .inl (by simpa [send] using h)⟩
  rw [handleRequestTransactionData]
  split
  case isTrue => exact error _
  case isFalse =>
    split
    case h_1 t ht =>
      split
      case h_1 e _ => cases e <;> exact .of_eq rfl rfl
      case h_2 data hd =>
        refine ⟨fun _ _ h => .inl h, fun data' h => ?_⟩
        rw [send, List.mem_append, List.mem_singleton] at h
        cases h
        case inl h => exact .inl h
        case inr h =>
          cases h
          exact .inr ⟨_, t, ht, hd⟩
    case h_2 => exact error _

theorem lookup_foldl_erase {ids : List TemplateId} {m : Map TemplateId TemplateData}
    {id : TemplateId} (h : (ids.foldl (fun m id => m.erase id) m).lookup id = some t) :
    m.lookup id = some t := by
  induction ids generalizing m with
  | nil => exact h
  | cons id' ids ih =>
    have h := ih h
    rw [Map.lookup_erase_ite] at h
    split at h
    case isTrue  => cases h
    case isFalse => exact h

theorem step_spec (h : s.step L a = some s') : Step L s a s' := by
  cases a with
  | run client =>
    obtain ⟨_, h⟩ := Option.ite_none_right_eq_some.mp h
    cases h
    exact step_run rfl
  | waitNext client =>
    obtain ⟨_, h⟩ := Option.ite_none_right_eq_some.mp h
    cases h
    exact step_onNextTemplate rfl
  | requestTransactionData msg =>
    obtain ⟨_, h⟩ := Option.ite_none_right_eq_some.mp h
    cases h
    exact step_handleRequestTransactionData
  | expire i =>
    obtain ⟨ids, _, rfl⟩ := Option.map_eq_some_iff.mp h
    exact ⟨fun _ _ h => .inl (lookup_foldl_erase h), fun _ h => .inl h⟩
  | cancel =>
    cases h
    exact .of_eq rfl rfl

-- The templates that are stored, and the lists that were sent, are those of blocks of the node.
structure Holds (L : Library) (s : BitcoinCoreSv2) : Prop where
  stored : ∀ id t, s.templateData.lookup id = some t →
    ∃ coinbase txs, t.templateIpcClient.Serves L coinbase txs
  sent   : ∀ data, .requestTransactionDataSuccess data ∈ s.outgoingMessages →
    ∃ client coinbase txs, BlockTemplateIpcClient.Serves L client coinbase txs ∧
      data.transactionList = (coinbase :: txs).map L.serialize

theorem holds_new : Holds L new where
  stored _ _ h := by cases h
  sent _ h := by cases h

theorem Holds.step (hi : Holds L s) (ha : ServesBlocks L a) (h : Step L s a s') : Holds L s' where
  stored id t ht := by
    cases h.stored id t ht
    case inl ht => exact hi.stored id t ht
    case inr hc => exact ha _ hc
  sent data hd := by
    cases h.sent data hd
    case inl hd => exact hi.sent data hd
    case inr hd =>
      obtain ⟨id, t, ht, hd⟩ := hd
      obtain ⟨coinbase, txs, hc⟩ := hi.stored id t ht
      exact ⟨_, coinbase, txs, hc, t.getRequestTransactionDataSuccessMessage_list hd hc⟩

end BitcoinCoreSv2

variable {L : Library} {tr : List (Machine.Event BitcoinCoreSv2 Action)} {s : BitcoinCoreSv2}

theorem holds_of_run (r : (machine L).Run tr s)
    (hc : Machine.Along (fun _ a => ServesBlocks L a) tr) : BitcoinCoreSv2.Holds L s :=
  have init (s : BitcoinCoreSv2) (h : (machine L).Init s) : BitcoinCoreSv2.Holds L s := by
    cases h
    exact BitcoinCoreSv2.holds_new
  r.invariant init (fun _ _ _ hi ha h => hi.step ha (BitcoinCoreSv2.step_spec h)) hc

theorem not_describes (r : (machine L).Run tr s)
    (hc : Machine.Along (fun _ a => ServesBlocks L a) tr) (template : NewTemplate)
    (data : RequestTransactionDataSuccess)
    (hd : .requestTransactionDataSuccess data ∈ s.outgoingMessages) (coinbase : Transaction) :
    ¬Describes L coinbase template data := by
  obtain ⟨_, _, _, hs, hl⟩ := (holds_of_run r hc).sent data hd
  exact not_describes_of_serves hs hl

namespace Sample

def payment : Transaction where
  version  := 2
  lockTime := 0
  input    := [{ previousOutput := { txid := 9, vout := 1 }, scriptSig := [], sequence := 0
                 witness := [] }]
  output   := [{ value := 50, scriptPubkey := [81] }]

def coinbase : Transaction where
  version  := 2
  lockTime := 7
  input    := [{ previousOutput := { txid := 0, vout := UInt32.ofNat 0xFFFFFFFF }
                 scriptSig := [1, 7], sequence := 0, witness := [] }]
  output   := [{ value := 5000, scriptPubkey := [] }, { value := 0, scriptPubkey := [106] }]

def header : Header where
  version       := 2
  prevBlockhash := 3
  merkleRoot    := 0
  time          := 4
  bits          := 5
  nonce         := 0

def bytesOf (n width : ℕ) : Bytes :=
  (List.range width).map fun i => UInt8.ofNat (n >>> (8 * i))

def serializeTxOut (o : TxOut) : Bytes :=
  bytesOf o.value.toNat 8 ++ UInt8.ofNat o.scriptPubkey.length :: o.scriptPubkey

def serializeTxIn (i : TxIn) : Bytes :=
  bytesOf i.previousOutput.txid.toNat 32 ++ bytesOf i.previousOutput.vout.toNat 4 ++
    UInt8.ofNat i.scriptSig.length :: i.scriptSig ++ bytesOf i.sequence.toNat 4

def serialize (tx : Transaction) : Bytes :=
  bytesOf tx.version.toUInt32.toNat 4 ++
    UInt8.ofNat tx.input.length :: tx.input.flatMap serializeTxIn ++
    UInt8.ofNat tx.output.length :: tx.output.flatMap serializeTxOut ++ bytesOf tx.lockTime.toNat 4

def headerBytes : Bytes :=
  bytesOf 2 4 ++ bytesOf 3 32 ++ bytesOf 0 32 ++ bytesOf 4 4 ++ bytesOf 5 4 ++ bytesOf 0 4

def blockBytes : Bytes :=
  headerBytes ++ 2 :: serialize coinbase ++ serialize payment

-- Reads back what the samples write. The hashes are not those of the source, but differ where those
-- do.
def library : Library where
  serialize               := serialize
  serializeTxOut          := serializeTxOut
  deserialize bytes       :=
    if bytes = serialize coinbase then .ok coinbase
    else if bytes = serialize payment then .ok payment
    else .error "not a transaction"
  deserializeHeader bytes := if bytes = headerBytes then .ok header else .error "not a header"
  deserializeBlock bytes  :=
    if bytes = blockBytes then .ok { header := header, txdata := [coinbase, payment] }
    else .error "not a block"
  computeTxid tx          := if tx.isCoinbase then 11 else 13
  sha256d a b             := 2 * a + 3 * b
  targetFromBits bits     := BitVec.ofNat 256 bits.toNat

def client : BlockTemplateIpcClient where
  getBlockHeader        := .ok headerBytes
  getCoinbaseTx         := .ok (serialize coinbase)
  getCoinbaseMerklePath := .ok [bytesOf 13 32]
  getBlock              := .ok blockBytes
  getContext            := .ok ()
  getOptions            := .ok ()

theorem client_serves : client.Serves library coinbase [payment] where
  isCoinbase := by decide
  decodes    := by decide +kernel
  txdata     := by
    intro bytes block hb hd
    cases hb
    have hb : library.deserializeBlock blockBytes =
        .ok { header := header, txdata := [coinbase, payment] } := by
      decide +kernel
    cases hb.symm.trans hd
    rfl
  merklePath := by
    intro path hp
    cases hp
    have hb : Merkle.branch library.sha256d [11, 13] = [13] := by
      simp [Merkle.branch, Merkle.level]
    exact (congrArg some hb).symm

def actions : List Action :=
  [.run client, .requestTransactionData { templateId := 0 }]

def template : NewTemplate where
  templateId               := 0
  futureTemplate           := true
  version                  := 2
  coinbaseTxVersion        := 2
  coinbasePrefix           := fit [1, 7]
  coinbaseTxInputSequence  := 0
  coinbaseTxValueRemaining := 5000
  coinbaseTxOutputsCount   := 1
  coinbaseTxOutputs        := fit (serializeTxOut { value := 0, scriptPubkey := [106] })
  coinbaseTxLocktime       := 7
  merklePath               := [13]

def data : RequestTransactionDataSuccess where
  templateId      := 0
  excessData      := []
  transactionList := [serialize coinbase, serialize payment]

theorem actions_exec : ((machine library).exec .new actions).any fun s =>
    .newTemplate template ∈ s.outgoingMessages ∧
      .requestTransactionDataSuccess data ∈ s.outgoingMessages := by
  decide +kernel

theorem serves_actions : Machine.Along (fun _ a => ServesBlocks library a)
    ((machine library).trace .new actions) := by
  intro e he client' hc
  have ha := Machine.act_of_mem_trace he
  simp only [actions, List.mem_cons, List.not_mem_nil, or_false] at ha
  rcases ha with ha | ha <;> rw [ha] at hc <;> cases hc
  exact ⟨coinbase, [payment], client_serves⟩

-- The root of the tree with the list as it is sent has the coinbase in it twice.
theorem not_root : Merkle.root library.sha256d [11, 11, 13] ≠
    some (template.merklePath.foldl library.sha256d 11) := by
  have h : Merkle.root library.sha256d [11, 11, 13] =
      some (library.sha256d (library.sha256d 11 11) (library.sha256d 13 13)) := by
    simp [Merkle.root, Merkle.level]
  rw [h]
  decide

end Sample

open Sample in
theorem not_template_describes : ¬∀ tr s, (machine library).Run tr s →
    Machine.Along (fun _ a => ServesBlocks library a) tr →
    ∀ template data, .newTemplate template ∈ s.outgoingMessages →
      .requestTransactionDataSuccess data ∈ s.outgoingMessages →
      template.templateId = data.templateId → Describes library coinbase template data := by
  intro h
  obtain ⟨s, hs, hd⟩ := Option.any_eq_true _ _ |>.mp actions_exec
  obtain ⟨ht, hd⟩ := of_decide_eq_true hd
  have h := h _ s (.of_exec rfl hs) serves_actions template data ht hd rfl
  obtain ⟨ids, hi, hr⟩ := h.root
  have hids : txids library data.transactionList = .ok [11, 13] := by decide +kernel
  cases hids.symm.trans hi
  exact not_root hr

open Sample in
theorem not_describes_sample : ∃ tr s, (machine library).Run tr s ∧
    .newTemplate template ∈ s.outgoingMessages ∧
    .requestTransactionDataSuccess data ∈ s.outgoingMessages ∧
    ¬Describes library coinbase template data := by
  obtain ⟨s, hs, hd⟩ := Option.any_eq_true _ _ |>.mp actions_exec
  obtain ⟨ht, hd⟩ := of_decide_eq_true hd
  have r := Machine.Run.of_exec (M := machine library) rfl hs
  exact ⟨_, s, r, ht, hd, not_describes r serves_actions template data hd coinbase⟩

end BitcoinCore
