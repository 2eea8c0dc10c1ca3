import StratumApps.Lib.Handler
import StratumApps.Lib.Merkle
import StratumApps.Sv2.TemplateDistribution

open Sv2 Handler

namespace BitcoinCore

structure OutPoint where
  txid : U256
  vout : UInt32
  deriving DecidableEq

structure TxIn where
  previousOutput : OutPoint
  scriptSig      : Bytes
  sequence       : UInt32
  witness        : List Bytes
  deriving DecidableEq

structure Transaction where
  version  : Int32
  lockTime : UInt32
  input    : List TxIn
  output   : List TxOut
  deriving DecidableEq

structure Header where
  version       : Int32
  prevBlockhash : U256
  merkleRoot    : U256
  time          : UInt32
  bits          : UInt32
  nonce         : UInt32
  deriving DecidableEq

structure Block where
  header : Header
  txdata : List Transaction
  deriving DecidableEq

def OutPoint.isNull (o : OutPoint) : Bool :=
  o.txid = 0 ∧ o.vout = UInt32.ofNat 0xFFFFFFFF

-- A transaction whose only input spends nothing.
def Transaction.isCoinbase (tx : Transaction) : Bool :=
  match tx.input with
  | [i] => i.previousOutput.isNull
  | _   => false

abbrev EncodeError := String

abbrev CapnpError := String

-- What the node's library offers. The hash of a node of the tree of a block is that of the hashes of
-- its two children.
structure Library where
  serialize         : Transaction → Bytes
  serializeTxOut    : TxOut → Bytes
  deserialize       : Bytes → Except EncodeError Transaction
  deserializeHeader : Bytes → Except EncodeError Header
  deserializeBlock  : Bytes → Except EncodeError Block
  computeTxid       : Transaction → U256
  sha256d           : U256 → U256 → U256
  targetFromBits    : UInt32 → U256

-- The answers of the node to the requests about one of its block templates, and whether a request to
-- wait for the next template can be given its thread and its options.
structure BlockTemplateIpcClient where
  getBlockHeader        : Except CapnpError Bytes
  getCoinbaseTx         : Except CapnpError Bytes
  getCoinbaseMerklePath : Except CapnpError (List Bytes)
  getBlock              : Except CapnpError Bytes
  getContext            : Except CapnpError Unit
  getOptions            : Except CapnpError Unit

def u256TryFrom (bytes : Bytes) : Option U256 :=
  if bytes.length = 32 then
    some (BitVec.ofNat 256 (bytes.foldr (fun b n => b.toNat + 256 * n) 0))
  else
    none

-- A block template of the node: its first transaction is a coinbase, its transactions can be read
-- back from their bytes, and the path that it gives for the coinbase leads from the first transaction
-- to the root of the tree of all of them.
structure BlockTemplateIpcClient.Serves (L : Library) (client : BlockTemplateIpcClient)
    (coinbase : Transaction) (txs : List Transaction) : Prop where
  isCoinbase : coinbase.isCoinbase
  decodes    : ∀ tx ∈ coinbase :: txs, L.deserialize (L.serialize tx) = .ok tx
  txdata     : ∀ bytes block, client.getBlock = .ok bytes → L.deserializeBlock bytes = .ok block →
    block.txdata = coinbase :: txs
  merklePath : ∀ path, client.getCoinbaseMerklePath = .ok path →
    path.mapM u256TryFrom = some (Merkle.branch L.sha256d ((coinbase :: txs).map L.computeTxid))

inductive TemplateDataError
  | invalidCoinbaseTx (e : EncodeError)
  | invalidBlockVersion
  | invalidCoinbaseTxVersion
  | invalidCoinbaseScriptSig
  | failedToSumCoinbaseOutputs
  | capnpError (e : CapnpError)
  | failedToSerializeEmptyCoinbaseOutputs
  | failedToConvertMerklePathHashToU256
  | failedToCreateMerklePathSeq
  deriving DecidableEq

structure TemplateData where
  templateId        : TemplateId
  header            : Header
  coinbaseTx        : Transaction
  merklePath        : List Bytes
  templateIpcClient : BlockTemplateIpcClient

namespace TemplateData

variable (L : Library) (t : TemplateData)

def u32TryFrom (n : Int32) : Option UInt32 :=
  if 0 ≤ n then some n.toUInt32 else none

def getVersion : Except (Fault TemplateDataError) UInt32 :=
  orErr (u32TryFrom t.header.version) .invalidBlockVersion

def getCoinbaseTxVersion : Except (Fault TemplateDataError) UInt32 :=
  orErr (u32TryFrom t.coinbaseTx.version) .invalidCoinbaseTxVersion

def coinbaseInput : Except (Fault TemplateDataError) TxIn :=
  expect t.coinbaseTx.input.head? "index out of bounds"

def getCoinbaseScriptSig : Except (Fault TemplateDataError) B0255 := do
  let input ← t.coinbaseInput
  orErr (input.scriptSig.tryInto 255) .invalidCoinbaseScriptSig

def getCoinbaseInputSequence : Except (Fault TemplateDataError) UInt32 := do
  let input ← t.coinbaseInput
  return input.sequence

def getEmptyCoinbaseOutputs : List TxOut :=
  t.coinbaseTx.output.filter fun o => o.value = 0

def getSerializedEmptyCoinbaseOutputs : Except (Fault TemplateDataError) B064K :=
  orErr (Bytes.tryInto 65535 (t.getEmptyCoinbaseOutputs.flatMap L.serializeTxOut))
    .failedToSerializeEmptyCoinbaseOutputs

def getCoinbaseTxValueRemaining : Except (Fault TemplateDataError) UInt64 :=
  let sum := (t.coinbaseTx.output.map fun o => o.value.toNat).sum
  if sum < 2 ^ 64 then return UInt64.ofNat sum else throw (.err .failedToSumCoinbaseOutputs)

def getMerklePath : Except (Fault TemplateDataError) (List U256) := do
  let merklePathU256 ← orErr (t.merklePath.mapM u256TryFrom) .failedToConvertMerklePathHashToU256
  if merklePathU256.length ≤ 255 then
    return merklePathU256
  else
    throw (.err .failedToCreateMerklePathSeq)

def getPrevHash : U256 :=
  t.header.prevBlockhash

def getNewTemplateMessage (futureTemplate : Bool) :
    Except (Fault TemplateDataError) NewTemplate := do
  let version ← t.getVersion
  let coinbaseTxVersion ← t.getCoinbaseTxVersion
  let coinbasePrefix ← t.getCoinbaseScriptSig
  let coinbaseTxInputSequence ← t.getCoinbaseInputSequence
  let coinbaseTxValueRemaining ← t.getCoinbaseTxValueRemaining
  let coinbaseTxOutputs ← t.getSerializedEmptyCoinbaseOutputs L
  let merklePath ← t.getMerklePath
  return {
    templateId               := t.templateId
    futureTemplate           := futureTemplate
    version                  := version
    coinbaseTxVersion        := coinbaseTxVersion
    coinbasePrefix           := coinbasePrefix
    coinbaseTxInputSequence  := coinbaseTxInputSequence
    coinbaseTxValueRemaining := coinbaseTxValueRemaining
    coinbaseTxOutputsCount   := UInt32.ofNat t.getEmptyCoinbaseOutputs.length
    coinbaseTxOutputs        := coinbaseTxOutputs
    coinbaseTxLocktime       := t.coinbaseTx.lockTime
    merklePath               := merklePath
  }

def getSetNewPrevHashMessage : SetNewPrevHash where
  templateId      := t.templateId
  prevHash        := t.getPrevHash
  headerTimestamp := t.header.time
  nBits           := t.header.bits
  target          := L.targetFromBits t.header.bits

def b016mTryFrom (bytes : Bytes) : Option Bytes :=
  if bytes.length < 2 ^ 24 then some bytes else none

-- The transactions of the whole block, in its order.
def getTxData : Except (Fault TemplateDataError) (List Bytes) := do
  let templateBlockBytes ← ofExcept .capnpError t.templateIpcClient.getBlock
  let block ← ofExcept .invalidCoinbaseTx (L.deserializeBlock templateBlockBytes)
  let txData ← block.txdata.mapM fun tx =>
    expect (b016mTryFrom (L.serialize tx)) "tx data should always be valid for B016M"
  if txData.length ≤ 65535 then
    return txData
  else
    throw (.panicked "tx data should always be valid for Seq064K")

def getRequestTransactionDataSuccessMessage :
    Except (Fault TemplateDataError) RequestTransactionDataSuccess := do
  let transactionList ← t.getTxData L
  return { templateId := t.templateId, transactionList := transactionList, excessData := [] }

variable {L} {t}

theorem getNewTemplateMessage_merklePath {futureTemplate : Bool} {template : NewTemplate}
    (h : t.getNewTemplateMessage L futureTemplate = .ok template) :
    t.merklePath.mapM u256TryFrom = some template.merklePath := by
  simp only [getNewTemplateMessage, bind_eq_ok, pure_eq_ok] at h
  obtain ⟨_, _, _, _, _, _, _, _, _, _, _, _, path, hp, rfl⟩ := h
  simp only [getMerklePath, bind_eq_ok, orErr_eq_ok] at hp
  obtain ⟨path', hp, hl⟩ := hp
  split at hl
  case isTrue =>
    cases hl
    exact hp
  case isFalse => cases hl

theorem b016mTryFrom_eq_some {bytes bytes' : Bytes} (h : b016mTryFrom bytes = some bytes') :
    bytes' = bytes := by
  rw [b016mTryFrom] at h
  split at h
  case isTrue  => exact (Option.some.inj h).symm
  case isFalse => cases h

theorem serializeAll_eq_ok {txs : List Transaction} {raws : List Bytes}
    (h : (txs.mapM fun tx => expect (b016mTryFrom (L.serialize tx))
      "tx data should always be valid for B016M") =
        (.ok raws : Except (Fault TemplateDataError) (List Bytes))) :
    raws = txs.map L.serialize := by
  induction txs generalizing raws with
  | nil =>
    cases h
    rfl
  | cons tx txs ih =>
    simp only [List.mapM_cons, bind_eq_ok, pure_eq_ok, expect_eq_ok] at h
    obtain ⟨raw, hr, raws', ht, rfl⟩ := h
    rw [b016mTryFrom_eq_some hr, ih ht, List.map_cons]

theorem getTxData_eq_ok {raws : List Bytes} (h : t.getTxData L = .ok raws) :
    ∃ bytes block, t.templateIpcClient.getBlock = .ok bytes ∧
      L.deserializeBlock bytes = .ok block ∧ raws = block.txdata.map L.serialize := by
  simp only [getTxData, bind_eq_ok, ofExcept_eq_ok] at h
  obtain ⟨bytes, hb, block, hd, raws', hr, hl⟩ := h
  split at hl
  case isTrue =>
    cases hl
    exact ⟨bytes, block, hb, hd, serializeAll_eq_ok hr⟩
  case isFalse => cases hl

theorem getRequestTransactionDataSuccessMessage_list {data : RequestTransactionDataSuccess}
    (h : t.getRequestTransactionDataSuccessMessage L = .ok data) {coinbase : Transaction}
    {txs : List Transaction} (hc : t.templateIpcClient.Serves L coinbase txs) :
    data.transactionList = (coinbase :: txs).map L.serialize := by
  simp only [getRequestTransactionDataSuccessMessage, bind_eq_ok, pure_eq_ok] at h
  obtain ⟨raws, hr, rfl⟩ := h
  obtain ⟨bytes, block, hb, hd, rfl⟩ := getTxData_eq_ok hr
  rw [hc.txdata bytes block hb hd]

end TemplateData

-- The ids of the transactions of a list as they were sent.
def txids (L : Library) (transactionList : List Bytes) : Except EncodeError (List U256) :=
  transactionList.mapM fun raw => (L.deserialize raw).map L.computeTxid

theorem txids_serialize {L : Library} {txs : List Transaction}
    (h : ∀ tx ∈ txs, L.deserialize (L.serialize tx) = .ok tx) :
    txids L (txs.map L.serialize) = .ok (txs.map L.computeTxid) := by
  induction txs with
  | nil => rfl
  | cons tx txs ih =>
    obtain ⟨htx, htxs⟩ := List.forall_mem_cons.mp h
    have ih := ih htxs
    rw [txids] at ih ⊢
    rw [List.map_cons, List.mapM_cons, htx, ih]
    rfl

-- The path and the list of a template describe one block: the path leads from a coinbase to the root
-- of the tree of that coinbase and the transactions of the list, which has no coinbase in it.
structure Describes (L : Library) (coinbase : Transaction) (template : NewTemplate)
    (data : RequestTransactionDataSuccess) : Prop where
  root     : ∃ ids, txids L data.transactionList = .ok ids ∧
    Merkle.root L.sha256d (L.computeTxid coinbase :: ids) =
      some (template.merklePath.foldl L.sha256d (L.computeTxid coinbase))
  excludes : ∀ raw ∈ data.transactionList, ∀ tx, L.deserialize raw = .ok tx → ¬tx.isCoinbase

namespace TemplateData

variable {L : Library} {t : TemplateData} {template : NewTemplate} {futureTemplate : Bool}
variable {data : RequestTransactionDataSuccess} {coinbase : Transaction} {txs : List Transaction}

-- The path does fit the list without its first transaction.
theorem describes_tail (hc : t.templateIpcClient.Serves L coinbase txs)
    (hp : t.templateIpcClient.getCoinbaseMerklePath = .ok t.merklePath)
    (ht : t.getNewTemplateMessage L futureTemplate = .ok template)
    (hd : t.getRequestTransactionDataSuccessMessage L = .ok data)
    (htx : ∀ tx ∈ txs, ¬tx.isCoinbase) (coinbase' : Transaction) :
    Describes L coinbase' template
      { data with transactionList := data.transactionList.tail } where
  root := by
    have hpath : template.merklePath =
        Merkle.branch L.sha256d ((coinbase :: txs).map L.computeTxid) :=
      Option.some.inj <| (getNewTemplateMessage_merklePath ht).symm.trans (hc.merklePath _ hp)
    have hlist := getRequestTransactionDataSuccessMessage_list hd hc
    have hdec := (List.forall_mem_cons.mp hc.decodes).right
    refine ⟨txs.map L.computeTxid, ?_, ?_⟩
    · simpa [hlist] using txids_serialize hdec
    · rw [hpath]
      exact Merkle.root_replace L.sha256d _ _ _
  excludes := by
    intro raw hr tx htx'
    rw [getRequestTransactionDataSuccessMessage_list hd hc] at hr
    obtain ⟨tx', hm, rfl⟩ := List.mem_map.mp hr
    rw [hc.decodes tx' (List.mem_cons_of_mem _ hm)] at htx'
    cases htx'
    exact htx tx hm

end TemplateData

theorem not_describes_of_serves {L : Library} {client : BlockTemplateIpcClient}
    {coinbase coinbase' : Transaction} {txs : List Transaction} {template : NewTemplate}
    {data : RequestTransactionDataSuccess} (hc : client.Serves L coinbase txs)
    (hd : data.transactionList = (coinbase :: txs).map L.serialize) :
    ¬Describes L coinbase' template data := by
  intro h
  refine h.excludes (L.serialize coinbase) ?_ coinbase (hc.decodes _ ?_) hc.isCoinbase
  · simp [hd]
  · simp

end BitcoinCore
