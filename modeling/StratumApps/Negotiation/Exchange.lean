import StratumApps.Pool.Extensions
import StratumApps.JobDeclaratorClient.System
import StratumApps.Translator.Reference

open Sv2 Handler

namespace Negotiation

open Pool (DownstreamTask ExtensionsConfig)

-- The part of a client that negotiates.
structure Client (σ ε : Type) where
  requestExtensions : Except ε (Option RequestExtensions)
  handle            : σ → Extensions → Except ε (σ × List Extensions)
  negotiated        : σ → List UInt16

-- A client and the pool, with the messages that are on their way. The client gives up on an error.
structure Exchange (σ : Type) where
  client   : σ
  gaveUp   : Bool
  pool     : DownstreamTask
  toPool   : List Extensions
  toClient : List Extensions

-- Who takes the next message that is there for it.
inductive Party
  | client
  | pool
  deriving DecidableEq

variable {σ ε : Type} (K : Client σ ε) (cfg : ExtensionsConfig)

namespace Exchange

variable (s : Exchange σ)

def clientStep : Option (Exchange σ) :=
  match s.gaveUp, s.toClient with
  | false, m :: toClient =>
    match K.handle s.client m with
    | .ok r    => some { s with client := r.1, toPool := s.toPool ++ r.2, toClient := toClient }
    | .error _ => some { s with gaveUp := true, toClient := toClient }
  | _, _ => none

def poolStep : Option (Exchange σ) :=
  match s.toPool with
  | []          => none
  | m :: toPool => (s.pool.step cfg (.extensions m)).map fun pool => { s with
    pool     := pool
    toPool   := toPool
    toClient := s.toClient ++ pool.sent.drop s.pool.sent.length }

def step : Party → Option (Exchange σ)
  | .client => s.clientStep K
  | .pool   => s.poolStep cfg

-- The client begins, once the connection is set up.
structure Init : Prop where
  negotiated : K.negotiated s.client = []
  pool       : s.pool = .start
  toClient   : s.toClient = []
  request    : (s.gaveUp, s.toPool) = match K.requestExtensions with
    | .ok none     => (false, [])
    | .ok (some m) => (false, [.requestExtensions m])
    | .error _     => (true, [])

def begin (client : σ) : Exchange σ where
  client   := client
  gaveUp   := !K.requestExtensions.isOk
  pool     := .start
  toPool   := K.requestExtensions.toOption.join.toList.map .requestExtensions
  toClient := []

-- Nobody has anything left to take.
def Ended : Prop :=
  ∀ p, s.step K cfg p = none

-- Both are still there and hold the same extensions, and what either requires is among them.
structure Agreed (required : List UInt16) : Prop where
  connected : s.pool.error = none ∧ s.gaveUp = false
  same      : K.negotiated s.client = s.pool.negotiatedExtensions
  client    : ∀ x ∈ required, x ∈ s.pool.negotiatedExtensions
  pool      : ∀ x ∈ cfg.requiredExtensions, x ∈ s.pool.negotiatedExtensions

theorem begin_init {client : σ} (h : K.negotiated client = []) : (begin K client).Init K where
  negotiated := h
  pool       := rfl
  toClient   := rfl
  request    := by
    rw [begin]
    split
    case h_1 hr => simp [hr, Except.isOk, Except.toBool, Except.toOption]
    case h_2 hr => simp [hr, Except.isOk, Except.toBool, Except.toOption]
    case h_3 hr => simp [hr, Except.isOk, Except.toBool, Except.toOption]

end Exchange

def machine : Machine (Exchange σ) Party where
  Init s := s.Init K
  step s := s.step K cfg

-- How a client negotiates: it asks for what it requires, takes an answer that has all of that, and
-- answers an error by asking for what the pool requires.
structure Client.Lawful (K : Client σ ε) (supported required : List UInt16) : Prop where
  none    : required = [] → K.requestExtensions = .ok none
  some    : required ≠ [] → required.length ≤ 65535 →
    ∃ id, K.requestExtensions = .ok (some ⟨id, required⟩)
  error   : required.length > 65535 → ∃ e, K.requestExtensions = .error e
  success : ∀ s m, (∀ x ∈ required, x ∈ m.supportedExtensions) →
    ∃ s', K.handle s (.requestExtensionsSuccess m) = .ok (s', []) ∧
      K.negotiated s' = m.supportedExtensions
  retry   : ∀ s m, (∀ x ∈ required, x ∉ m.unsupportedExtensions) → m.requiredExtensions ≠ [] →
    (∀ x ∈ m.requiredExtensions, x ∈ supported) → K.handle s (.requestExtensionsError m) =
      .ok (s, [.requestExtensions ⟨m.requestId + 1, m.requiredExtensions⟩])

section Run

variable {K} {cfg} {supported required : List UInt16} {s s' : Exchange σ} {p : Party}
variable {tr : List (Machine.Event (Exchange σ) Party)}

-- The requests of the client that are enough for the pool.
def Suffices (cfg : ExtensionsConfig) (required : List UInt16) : Prop :=
  (∀ x ∈ cfg.requiredExtensions, x ∈ required) ∧ required.length ≤ 65535

instance : Decidable (Suffices cfg required) :=
  inferInstanceAs (Decidable (_ ∧ _))

-- How far the exchange has come.
inductive Phase (K : Client σ ε) (cfg : ExtensionsConfig) (required : List UInt16) :
    ℕ → Exchange σ → Prop
  | silent {s : Exchange σ} : s.toPool = [] → s.toClient = [] → K.negotiated s.client = [] →
    s.pool = .start → (required = [] ∧ s.gaveUp = false ∨ required.length > 65535) →
    Phase K cfg required 0 s
  | asked {s : Exchange σ} {id : UInt16} : s.toPool = [.requestExtensions ⟨id, required⟩] →
    s.toClient = [] → K.negotiated s.client = [] → s.pool = .start → s.gaveUp = false →
    required ≠ [] → required.length ≤ 65535 → Phase K cfg required 0 s
  | accepted {s : Exchange σ} {id : UInt16} : s.toPool = [] →
    s.toClient = [.requestExtensionsSuccess ⟨id, required⟩] → s.pool.error = none →
    s.pool.negotiatedExtensions = required → s.gaveUp = false → Suffices cfg required →
    Phase K cfg required 1 s
  | agreed {s : Exchange σ} : s.toPool = [] → s.toClient = [] → s.pool.error = none →
    s.pool.negotiatedExtensions = required → K.negotiated s.client = required →
    s.gaveUp = false → Suffices cfg required → Phase K cfg required 2 s
  | refused {s : Exchange σ} {id : UInt16} {missing : List UInt16} : s.toPool = [] →
    (s.toClient = [] ∨ s.toClient = [.requestExtensionsError ⟨id, [], missing⟩]) →
    missing ≠ [] → (∀ x ∈ missing, x ∈ cfg.requiredExtensions) → s.pool.error ≠ none →
    s.pool.negotiatedExtensions = [] → required ≠ [] → ¬Suffices cfg required →
    Phase K cfg required 1 s
  | retried {s : Exchange σ} : s.toClient = [] → s.pool.error ≠ none →
    s.pool.negotiatedExtensions = [] → required ≠ [] → ¬Suffices cfg required →
    Phase K cfg required 2 s

theorem phase_init (hK : K.Lawful supported required) (h : s.Init K) : Phase K cfg required 0 s := by
  have hr := h.request
  by_cases hl : required.length > 65535
  case pos =>
    obtain ⟨e, he⟩ := hK.error hl
    rw [he] at hr
    exact .silent (congrArg Prod.snd hr) h.toClient h.negotiated h.pool (.inr hl)
  case neg =>
    by_cases hn : required = []
    case pos =>
      rw [hK.none hn] at hr
      exact .silent (congrArg Prod.snd hr) h.toClient h.negotiated h.pool
        (.inl ⟨hn, congrArg Prod.fst hr⟩)
    case neg =>
      obtain ⟨id, hi⟩ := hK.some hn (Nat.le_of_not_lt hl)
      rw [hi] at hr
      exact .asked (congrArg Prod.snd hr) h.toClient h.negotiated h.pool (congrArg Prod.fst hr) hn
        (Nat.le_of_not_lt hl)

-- The pool answers the first request, which asks for extensions that it supports.
theorem phase_request {id : UInt16} (hc : ∀ x ∈ required, x ∈ cfg.supportedExtensions)
    (hp : s.toPool = [.requestExtensions ⟨id, required⟩]) (ht : s.toClient = [])
    (hs : s.pool = .start) (hg : s.gaveUp = false) (hn : required ≠ [])
    (hl : required.length ≤ 65535) (h : s.step K cfg .pool = some s') :
    Phase K cfg required 1 s' := by
  have hsup : DownstreamTask.supported cfg ⟨id, required⟩ = required := DownstreamTask.supported_eq hc
  have huns : DownstreamTask.unsupported cfg ⟨id, required⟩ = [] :=
    DownstreamTask.unsupported_eq_nil hc
  rw [Exchange.step, Exchange.poolStep, hp, hs, ht] at h
  obtain ⟨pool, hpool, rfl⟩ := Option.map_eq_some_iff.mp h
  have hpool : DownstreamTask.start.handleRequestExtensions cfg ⟨id, required⟩ = pool :=
    Option.some.inj hpool
  by_cases hm : DownstreamTask.missingRequired cfg ⟨id, required⟩ = []
  case pos =>
    have hle : ¬required.length > DownstreamTask.maxExtensions := Nat.not_lt.mpr hl
    rw [DownstreamTask.handleRequestExtensions_eq_accept (by rwa [hsup]) hm, DownstreamTask.accept,
      hsup, if_neg hle] at hpool
    subst hpool
    exact .accepted rfl rfl rfl rfl hg ⟨DownstreamTask.missingRequired_eq_nil.mp hm, hl⟩
  case neg =>
    have hns : ¬Suffices cfg required := fun hs => hm (DownstreamTask.missingRequired_eq_nil.mpr hs.left)
    have hmem : ∀ x ∈ DownstreamTask.missingRequired cfg ⟨id, required⟩,
        x ∈ cfg.requiredExtensions := fun x hx => List.mem_of_mem_filter hx
    have hle : ¬([] : List UInt16).length > DownstreamTask.maxExtensions := Nat.not_lt_zero _
    rw [DownstreamTask.handleRequestExtensions_eq_refuse hm, DownstreamTask.refuse, huns,
      if_neg hle] at hpool
    split at hpool
    case isTrue =>
      subst hpool
      exact @Phase.refused _ _ _ _ _ _ id _ rfl (.inl rfl) hm hmem (Option.some_ne_none _) rfl hn hns
    case isFalse =>
      rw [if_neg (by simpa using hm)] at hpool
      subst hpool
      exact .refused rfl (.inr rfl) hm hmem (Option.some_ne_none _) rfl hn hns

theorem phase_step (hK : K.Lawful supported required)
    (hc : ∀ x ∈ required, x ∈ cfg.supportedExtensions)
    (hs : ∀ x ∈ cfg.requiredExtensions, x ∈ supported) {n : ℕ} (hp : Phase K cfg required n s)
    (h : s.step K cfg p = some s') : Phase K cfg required (n + 1) s' := by
  cases hp with
  | silent hp ht =>
    cases p with
    | client => simp [Exchange.step, Exchange.clientStep, ht] at h
    | pool   => simp [Exchange.step, Exchange.poolStep, hp] at h
  | agreed hp ht =>
    cases p with
    | client => simp [Exchange.step, Exchange.clientStep, ht] at h
    | pool   => simp [Exchange.step, Exchange.poolStep, hp] at h
  | asked hp ht _ hpool hg hn hl =>
    cases p with
    | client => simp [Exchange.step, Exchange.clientStep, ht] at h
    | pool   => exact phase_request hc hp ht hpool hg hn hl h
  | @accepted _ id hp ht he hpool hg hsuf =>
    cases p with
    | pool   => simp [Exchange.step, Exchange.poolStep, hp] at h
    | client =>
      obtain ⟨c, hc, hneg⟩ := hK.success s.client ⟨id, required⟩ fun _ hx => hx
      rw [Exchange.step, Exchange.clientStep, hg, ht] at h
      simp only [hc, List.append_nil, Option.some.injEq] at h
      subst h
      exact .agreed hp rfl he hpool hneg rfl hsuf
  | @refused _ id missing hp ht hm hmem he hpool hn hns =>
    cases p with
    | pool   => simp [Exchange.step, Exchange.poolStep, hp] at h
    | client =>
      rw [Exchange.step, Exchange.clientStep.eq_def] at h
      rcases ht with ht | ht
      case inl => simp [ht] at h
      case inr =>
        have hr := hK.retry s.client ⟨id, [], missing⟩ (by simp) hm fun x hx => hs x (hmem x hx)
        rw [ht] at h
        split at h
        case h_2 => cases h
        case h_1 heq =>
          cases heq
          simp only [hr, Option.some.injEq] at h
          subst h
          exact .retried rfl he hpool hn hns
  | retried ht he =>
    cases p with
    | client => simp [Exchange.step, Exchange.clientStep, ht] at h
    | pool   =>
      rw [Exchange.step, Exchange.poolStep.eq_def] at h
      split at h
      case h_1 => cases h
      case h_2 =>
        obtain ⟨e, he⟩ := Option.ne_none_iff_exists'.mp he
        simp [DownstreamTask.step, he] at h

theorem phase_run (hK : K.Lawful supported required)
    (hc : ∀ x ∈ required, x ∈ cfg.supportedExtensions)
    (hs : ∀ x ∈ cfg.requiredExtensions, x ∈ supported) (r : (machine K cfg).Run tr s) :
    Phase K cfg required tr.length s := by
  obtain ⟨s₀, hi, p⟩ := r
  induction p with
  | nil            => exact phase_init hK hi
  | snoc _ hst ih =>
    rw [List.length_append]
    exact phase_step hK hc hs ih hst

theorem length_le {n : ℕ} (h : Phase K cfg required n s) : n ≤ 2 := by
  cases h <;> decide

-- The exchange has ended well exactly when what the client asks for is enough for the pool.
theorem agreed_of_phase (hK : K.Lawful supported required) {n : ℕ} (h : Phase K cfg required n s)
    (he : s.Ended K cfg) : s.Agreed K cfg required ↔ Suffices cfg required := by
  cases h with
  | silent hp ht hneg hpool hr =>
    have hneg' : s.pool.negotiatedExtensions = [] := by rw [hpool]; rfl
    rcases hr with ⟨hr, hg⟩ | hr
    case inl =>
      constructor
      case mp =>
        intro ha
        exact ⟨fun x hx => by simpa [hneg'] using ha.pool x hx, by simp [hr]⟩
      case mpr =>
        intro hsuf
        refine ⟨⟨by rw [hpool]; rfl, hg⟩, hneg.trans hneg'.symm, by simp [hr], fun x hx => ?_⟩
        simpa [hr] using hsuf.left x hx
    case inr =>
      refine iff_of_false (fun ha => ?_) fun hsuf => Nat.not_lt.mpr hsuf.right hr
      obtain ⟨x, hx⟩ := List.exists_mem_of_length_pos (Nat.zero_lt_of_lt hr)
      simpa [hneg'] using ha.client x hx
  | asked hp ht hneg hpool =>
    have := he .pool
    rw [Exchange.step, Exchange.poolStep, hp, hpool] at this
    cases this
  | @accepted _ id hp ht _ _ hg =>
    obtain ⟨c, hc, _⟩ := hK.success s.client ⟨id, required⟩ fun _ hx => hx
    have := he .client
    rw [Exchange.step, Exchange.clientStep, hg, ht] at this
    simp [hc] at this
  | agreed hp ht hpe hpool hneg hg hsuf =>
    refine iff_of_true ⟨⟨hpe, hg⟩, hneg.trans hpool.symm, ?_, ?_⟩ hsuf
    · rw [hpool]
      exact fun _ hx => hx
    · rw [hpool]
      exact hsuf.left
  | refused _ _ _ _ hpe _ _ hns => exact iff_of_false (fun ha => hpe ha.connected.left) hns
  | retried _ hpe _ _ hns       => exact iff_of_false (fun ha => hpe ha.connected.left) hns

end Run

section Clients

def ofJobDeclaratorClient : Jdc.RouteMessageTo → Option Extensions
  | .extensions m => some m
  | _             => none

def jobDeclaratorClient (C : StratumCore) (cfg : Jdc.Config) :
    Client (Jdc.ChannelManager C) (Fault Jdc.JDCError) where
  requestExtensions := cfg.requestExtensions
  handle s m        := (s.handleExtensionsMessageFromServer cfg m).map fun r =>
    (r.manager, r.messages.filterMap ofJobDeclaratorClient)
  negotiated s      := s.negotiatedExtensions

def ofTranslator : Translator.RouteMessageTo → Option Extensions
  | .extensions m => some m
  | _             => none

def translator (C : TranslatorCore) (cfg : Translator.Config) :
    Client (Translator.ChannelManager C) (Fault Translator.TproxyError) where
  requestExtensions := cfg.requestExtensions
  handle s m        := (s.handleExtensionsMessageFromServer cfg m).map fun r =>
    (r.1, r.2.filterMap ofTranslator)
  negotiated s      := s.negotiatedExtensions

variable {required supported : List UInt16}

theorem missing_of_success {m : RequestExtensionsSuccess}
    (h : ∀ x ∈ required, x ∈ m.supportedExtensions) :
    required.filter (!m.supportedExtensions.contains ·) = [] := by
  simpa [List.filter_eq_nil_iff] using h

theorem missing_of_error {m : RequestExtensionsError}
    (h : ∀ x ∈ required, x ∉ m.unsupportedExtensions) :
    required.filter (m.unsupportedExtensions.contains ·) = [] := by
  simpa [List.filter_eq_nil_iff] using h

theorem canSupport_of_error {m : RequestExtensionsError}
    (h : ∀ x ∈ m.requiredExtensions, x ∈ supported) :
    m.requiredExtensions.filter (supported.contains ·) = m.requiredExtensions ∧
      m.requiredExtensions.filter (!supported.contains ·) = [] := by
  constructor
  case left  => simpa [List.filter_eq_self] using h
  case right => simpa [List.filter_eq_nil_iff] using h

theorem jobDeclaratorClient_lawful {C : StratumCore} {cfg : Jdc.Config} :
    (jobDeclaratorClient C cfg).Lawful cfg.supportedExtensions cfg.requiredExtensions where
  none h      := by simp [jobDeclaratorClient, Jdc.Config.requestExtensions, h, pure, Except.pure]
  some h hl   := ⟨0, by simp [jobDeclaratorClient, Jdc.Config.requestExtensions, h, hl, orErr, pure,
    Except.pure, bind, Except.bind]⟩
  error h     := by
    have hn : cfg.requiredExtensions ≠ [] := by
      rintro hn
      simp [hn] at h
    exact ⟨.err .binarySv2, by simp [jobDeclaratorClient, Jdc.Config.requestExtensions, hn,
      Nat.not_le.mpr h, orErr, bind, Except.bind]⟩
  success s m h := by
    refine ⟨{ s with negotiatedExtensions := m.supportedExtensions }, ?_, rfl⟩
    simp only [jobDeclaratorClient, Jdc.ChannelManager.handleExtensionsMessageFromServer,
      Jdc.ChannelManager.handleRequestExtensionsSuccess, missing_of_success h]
    rfl
  retry s m h hn hs := by
    obtain ⟨hcan, hcannot⟩ := canSupport_of_error hs
    simp only [jobDeclaratorClient, Jdc.ChannelManager.handleExtensionsMessageFromServer,
      Jdc.ChannelManager.handleRequestExtensionsError, missing_of_error h, hcan, hcannot]
    simp [hn, pure, Except.pure, Except.map, ofJobDeclaratorClient]

theorem translator_lawful {C : TranslatorCore} {cfg : Translator.Config} :
    (translator C cfg).Lawful cfg.supportedExtensions cfg.requiredExtensions where
  none h      := by simp [translator, Translator.Config.requestExtensions, h, pure, Except.pure]
  some h hl   := ⟨1, by simp [translator, Translator.Config.requestExtensions, h, hl, expect, pure,
    Except.pure, bind, Except.bind]⟩
  error h     := by
    have hn : cfg.requiredExtensions ≠ [] := by
      rintro hn
      simp [hn] at h
    exact ⟨_, by simp [translator, Translator.Config.requestExtensions, hn, Nat.not_le.mpr h, expect,
      bind, Except.bind]; rfl⟩
  success s m h := by
    refine ⟨{ s with negotiatedExtensions := m.supportedExtensions }, ?_, rfl⟩
    simp only [translator, Translator.ChannelManager.handleExtensionsMessageFromServer,
      Translator.ChannelManager.handleRequestExtensionsSuccess, missing_of_success h]
    rfl
  retry s m h hn hs := by
    obtain ⟨hcan, hcannot⟩ := canSupport_of_error hs
    simp only [translator, Translator.ChannelManager.handleExtensionsMessageFromServer,
      Translator.ChannelManager.handleRequestExtensionsError, missing_of_error h, hcan, hcannot]
    simp [hn, pure, Except.pure, Except.map, ofTranslator]

end Clients

-- With either client the exchange ends after at most two steps, and it ends well exactly when the
-- client asks at once for all that the pool requires.
theorem agreed_iff_suffices (cfg : ExtensionsConfig) :
    (∀ (C : StratumCore) (client : Jdc.Config),
      (∀ x ∈ client.requiredExtensions, x ∈ cfg.supportedExtensions) →
      (∀ x ∈ cfg.requiredExtensions, x ∈ client.supportedExtensions) →
      ∀ tr s, (machine (jobDeclaratorClient C client) cfg).Run tr s → tr.length ≤ 2 ∧
        (s.Ended (jobDeclaratorClient C client) cfg →
          (s.Agreed (jobDeclaratorClient C client) cfg client.requiredExtensions ↔
            Suffices cfg client.requiredExtensions))) ∧
    (∀ (C : TranslatorCore) (client : Translator.Config),
      (∀ x ∈ client.requiredExtensions, x ∈ cfg.supportedExtensions) →
      (∀ x ∈ cfg.requiredExtensions, x ∈ client.supportedExtensions) →
      ∀ tr s, (machine (translator C client) cfg).Run tr s → tr.length ≤ 2 ∧
        (s.Ended (translator C client) cfg →
          (s.Agreed (translator C client) cfg client.requiredExtensions ↔
            Suffices cfg client.requiredExtensions))) := by
  constructor
  case left =>
    intro C client hc hs tr s r
    have h := phase_run jobDeclaratorClient_lawful hc hs r
    exact ⟨length_le h, agreed_of_phase jobDeclaratorClient_lawful h⟩
  case right =>
    intro C client hc hs tr s r
    have h := phase_run translator_lawful hc hs r
    exact ⟨length_le h, agreed_of_phase translator_lawful h⟩

-- Both sides support the extensions 1 and 2, and the client requires the first.
namespace Sample

def pool (requiredExtensions : List UInt16) : ExtensionsConfig where
  supportedExtensions := [1, 2]
  requiredExtensions  := requiredExtensions

def client : Jdc.Config :=
  Jdc.Sample.config [1, 2] [1]

def miner : Translator.Config where
  supportedExtensions := [1, 2]
  requiredExtensions  := [1]

def clientSide : Client (Jdc.ChannelManager StratumCore.reference) (Fault Jdc.JDCError) :=
  jobDeclaratorClient _ client

def minerSide : Client (Translator.ChannelManager Translator.reference)
    (Fault Translator.TproxyError) :=
  translator _ miner

def start : Exchange (Jdc.ChannelManager StratumCore.reference) :=
  .begin clientSide (Jdc.Sample.start []).manager

def minerStart : Exchange (Translator.ChannelManager Translator.reference) :=
  .begin minerSide (.new .aggregated)

def turns : List Party :=
  [.pool, .client]

end Sample

section Sample

open Sample

theorem turns_exec :
    ((machine clientSide (pool [1])).exec start turns).any fun s =>
      (s.step clientSide (pool [1]) .client).isNone ∧
        (s.step clientSide (pool [1]) .pool).isNone := by
  decide +kernel

theorem minerTurns_exec :
    ((machine minerSide (pool [1])).exec minerStart turns).any fun s =>
      (s.step minerSide (pool [1]) .client).isNone ∧
        (s.step minerSide (pool [1]) .pool).isNone := by
  decide +kernel

theorem ended_of_isNone {σ ε : Type} {K : Client σ ε} {cfg : ExtensionsConfig} {s : Exchange σ}
    (h : (s.step K cfg .client).isNone ∧ (s.step K cfg .pool).isNone) : s.Ended K cfg := by
  intro p
  cases p with
  | client => exact Option.isNone_iff_eq_none.mp h.left
  | pool   => exact Option.isNone_iff_eq_none.mp h.right

theorem suffices_first : Suffices (pool [1]) [1] :=
  ⟨fun _ hx => hx, by simp⟩

theorem agreed_iff_suffices_sample :
    (∃ tr s, (machine clientSide (pool [1])).Run tr s ∧
      s.Agreed clientSide (pool [1]) [1]) ∧
    ∃ tr s, (machine minerSide (pool [1])).Run tr s ∧
      s.Agreed minerSide (pool [1]) [1] := by
  have hc : ∀ x ∈ [(1 : UInt16)], x ∈ [(1 : UInt16), 2] := by simp
  constructor
  case left =>
    obtain ⟨s, hs, he⟩ := Option.any_eq_true _ _ |>.mp turns_exec
    have r := Machine.Run.of_exec (M := machine clientSide (pool [1]))
      (Exchange.begin_init clientSide rfl) hs
    have h := (agreed_iff_suffices (pool [1])).left _ client hc hc _ s r
    exact ⟨_, s, r, (h.right (ended_of_isNone (of_decide_eq_true he))).mpr suffices_first⟩
  case right =>
    obtain ⟨s, hs, he⟩ := Option.any_eq_true _ _ |>.mp minerTurns_exec
    have r := Machine.Run.of_exec (M := machine minerSide (pool [1]))
      (Exchange.begin_init minerSide rfl) hs
    have h := (agreed_iff_suffices (pool [1])).right _ miner hc hc _ s r
    exact ⟨_, s, r, (h.right (ended_of_isNone (of_decide_eq_true he))).mpr suffices_first⟩

theorem refused_exec :
    ((machine clientSide (pool [2])).exec start turns).any fun s =>
      ((s.step clientSide (pool [2]) .client).isNone ∧
        (s.step clientSide (pool [2]) .pool).isNone) ∧
        s.pool.error.isSome := by
  decide +kernel

-- The pool requires the second extension, which the client supports and does not ask for.
theorem not_agreed : ¬∀ (cfg : ExtensionsConfig) (C : StratumCore) (client : Jdc.Config),
    (∀ x ∈ client.requiredExtensions, x ∈ cfg.supportedExtensions) →
    (∀ x ∈ cfg.requiredExtensions, x ∈ client.supportedExtensions) →
    ∀ tr s, (machine (jobDeclaratorClient C client) cfg).Run tr s →
      s.Ended (jobDeclaratorClient C client) cfg →
        s.Agreed (jobDeclaratorClient C client) cfg client.requiredExtensions := by
  intro h
  obtain ⟨s, hs, he⟩ := Option.any_eq_true _ _ |>.mp refused_exec
  have r := Machine.Run.of_exec (M := machine clientSide (pool [2]))
    (Exchange.begin_init clientSide rfl) hs
  obtain ⟨he, hp⟩ := of_decide_eq_true he
  have hc : ∀ x ∈ [(1 : UInt16)], x ∈ [(1 : UInt16), 2] := by simp
  have hr : ∀ x ∈ [(2 : UInt16)], x ∈ [(1 : UInt16), 2] := by simp
  have ha := h (pool [2]) _ client hc hr _ s r (ended_of_isNone he)
  rw [ha.connected.left] at hp
  cases hp

end Sample

end Negotiation
