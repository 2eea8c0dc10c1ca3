import StratumApps.JobDeclaratorClient.Works

open Sv2 Handler StratumCore

namespace Jdc

variable {C : StratumCore} {cfg : Config} {d : DownstreamId} {mode : JdMode}
variable {messages messages' : List RouteMessageTo}

-- All messages but those that name a template to the template provider, and those that provide
-- transactions.
def RouteMessageTo.Ordinary : RouteMessageTo → Prop
  | templateProvider (.requestTransactionData _)         => False
  | templateProvider (.submitSolution _)                 => False
  | jobDeclarator (.provideMissingTransactionsSuccess _) => False
  | _                                                    => True

def Permits (Q : RouteMessageTo → Prop) : Prop :=
  ∀ m : RouteMessageTo, m.Ordinary → Q m

def Only (Q : RouteMessageTo → Prop) (messages : List RouteMessageTo) : Prop :=
  ∀ m ∈ messages, Q m

end Jdc

namespace StratumCore

-- A share that one of the channels takes for a block of the template.
def ShareChannels.Solves {κ μ ω ε : Type} (S : ShareChannels κ μ ω ε) (channels : Map ChannelId κ)
    (t : TemplateId) : Prop :=
  ∃ c x share hash coinbase, channels.lookup c = some x ∧
    (S.validateShare x share).1 = .ok (.blockFound hash (some t) coinbase)

end StratumCore

namespace Jdc

namespace ChannelManager

def Solves (s : ChannelManager C) (t : TemplateId) : Prop :=
  ∃ d D, s.downstream.lookup d = some D ∧
    (C.standard.Solves D.standardChannels t ∨ C.extended.Solves D.extendedChannels t)

-- The reply has the transactions of the record at the positions that are asked for.
def Provides (s : ChannelManager C) (request : ProvideMissingTransactions)
    (reply : ProvideMissingTransactionsSuccess) : Prop :=
  ∃ entry, s.lastDeclareJobStore.lookup request.requestId = some entry ∧
    reply.requestId = request.requestId ∧
    reply.transactionList.1 = missingTransactions entry.txList request.unknownTxPositionList

end ChannelManager

section Only

variable {Q : RouteMessageTo → Prop}

namespace Only

theorem of_ordinary (hQ : Permits Q) (h : ∀ m ∈ messages, m.Ordinary) : Only Q messages :=
  fun m hm => hQ m (h m hm)

theorem nil : Only Q [] :=
  fun _ hm => (by cases hm)

theorem append (h : Only Q messages) (h' : Only Q messages') : Only Q (messages ++ messages') :=
  fun m hm => (List.mem_append.mp hm).elim (h m) (h' m)

theorem forward (h : Only Q messages) : Only Q (forward mode messages) :=
  fun m hm => h m (mem_of_mem_forward hm)

theorem adds (hQ : Permits Q) (h : Only Q messages) (ha : Adds messages messages') :
    Only Q messages' := by
  obtain ⟨new, rfl, hn⟩ := ha
  refine h.append (of_ordinary hQ fun m hm => ?_)
  obtain ⟨d, m', rfl⟩ := hn m hm
  trivial

theorem updateUpstream (hQ : Permits Q) {s : ChannelManager C} {min : Target → Target → Target} :
    Only Q (s.updateUpstream min) := by
  refine of_ordinary hQ fun m hm => ?_
  obtain ⟨_, _, rfl⟩ := List.mem_map.mp hm
  trivial

end Only

namespace ChannelManager

variable (hQ : Permits Q) {s : ChannelManager C} {D : Downstream C} {o : Outcome C}

include hQ

section Open

variable {template : NewTemplate} {prevHash : SetNewPrevHash} {outputs : List TxOut}
variable {extranoncePrefix : Bytes}

end Open

section Shares

variable {κ μ ω ε : Type} {S : ShareChannels κ μ ω ε} {share : ShareFields}

end Shares

section Server

end Server

end ChannelManager

end Only

namespace System

-- Why a message is sent.
inductive Sends (s : ChannelManager C) (a : Action) : RouteMessageTo → Prop
  | ordinary {m : RouteMessageTo} : m.Ordinary → Sends s a m
  | requested {t : NewTemplate} : a = .templateMessage (.newTemplate t) →
    Sends s a (.templateProvider (.requestTransactionData ⟨t.templateId⟩))
  | resumed {t : NewTemplate} : s.lastFutureTemplate = some t →
    Sends s a (.templateProvider (.requestTransactionData ⟨t.templateId⟩))
  | solved {solution : SubmitSolution} : s.Solves solution.templateId →
    Sends s a (.templateProvider (.submitSolution solution))
  | provided {request : ProvideMissingTransactions} {reply : ProvideMissingTransactionsSuccess} :
    a = .jdsMessage (.provideMissingTransactions request) → s.Provides request reply →
    Sends s a (.jobDeclarator (.provideMissingTransactionsSuccess reply))

open ChannelManager

end System

end Jdc

