import StratumApps.BitcoinCore.Staleness
import StratumApps.BitcoinCore.Transactions

open Sv2 Handler

namespace BitcoinCore

variable {L : Library} {P Q : TemplateData → Prop} {F G : BlockTemplateIpcClient → TemplateId → Prop}

-- The data of a block template of the node, under an id.
def Built (L : Library) (client : BlockTemplateIpcClient) (id : TemplateId) (t : TemplateData) : Prop :=
  { BitcoinCoreSv2.new with templateIdFactory := id }.fetchTemplateData L client = .ok t

-- A message is made of the data of a template.
def Tells (L : Library) (P : TemplateData → Prop) : TemplateDistribution → Prop
  | .newTemplate m                   => ∃ t future, P t ∧ t.getNewTemplateMessage L future = .ok m
  | .setNewPrevHash m                => ∃ t, P t ∧ m = t.getSetNewPrevHashMessage L
  | .requestTransactionDataSuccess m => ∃ t, P t ∧ t.getRequestTransactionDataSuccessMessage L = .ok m
  | _                                => True

theorem Tells.mono {m : TemplateDistribution} (h : Tells L P m) (hp : ∀ t, P t → Q t) :
    Tells L Q m := by
  cases m with
  | newTemplate =>
    obtain ⟨t, future, ht, hm⟩ := h
    exact ⟨t, future, hp t ht, hm⟩
  | setNewPrevHash =>
    obtain ⟨t, ht, hm⟩ := h
    exact ⟨t, hp t ht, hm⟩
  | requestTransactionDataSuccess =>
    obtain ⟨t, ht, hm⟩ := h
    exact ⟨t, hp t ht, hm⟩
  | _ => trivial

-- What a monitor waits with: an id for a block template, or data.
def Phase.Carries (L : Library) (P : TemplateData → Prop)
    (F : BlockTemplateIpcClient → TemplateId → Prop) : Phase → Prop
  | .fetching template id => F template.ipcClient id
  | .announcing _ t m     => P t ∧ t.getNewTemplateMessage L true = .ok m
  | .activating t         => P t
  | .sleeping _ t         => P t
  | .updating _ t m       => P t ∧ t.getNewTemplateMessage L false = .ok m
  | _                     => True

theorem Phase.Carries.mono {p : Phase} (h : p.Carries L P F) (hp : ∀ t, P t → Q t)
    (hf : ∀ client id, F client id → G client id) : p.Carries L Q G := by
  cases p with
  | fetching => exact hf _ _ h
  | announcing | updating => exact ⟨hp _ h.left, h.right⟩
  | activating | sleeping => exact hp _ h
  | starting | waiting | exited => trivial

theorem Built.templateId {client : BlockTemplateIpcClient} {id : TemplateId} {t : TemplateData}
    (h : Built L client id t) : t.templateId = id := by
  simp only [Built, BitcoinCoreSv2.fetchTemplateData, bind_eq_ok, pure_eq_ok] at h
  obtain ⟨_, _, _, _, _, _, _, _, _, _, rfl⟩ := h
  rfl

theorem Built.client {client : BlockTemplateIpcClient} {id : TemplateId} {t : TemplateData}
    (h : Built L client id t) : t.templateIpcClient = client :=
  BitcoinCoreSv2.fetchTemplateData_client h

theorem Built.merklePath {client : BlockTemplateIpcClient} {id : TemplateId} {t : TemplateData}
    (h : Built L client id t) : client.getCoinbaseMerklePath = .ok t.merklePath := by
  simp only [Built, BitcoinCoreSv2.fetchTemplateData, bind_eq_ok, ofExcept_eq_ok, pure_eq_ok] at h
  obtain ⟨_, _, _, _, _, _, _, _, _, hp, rfl⟩ := h
  exact hp

theorem Built.unique {client : BlockTemplateIpcClient} {id : TemplateId} {t t' : TemplateData}
    (h : Built L client id t) (h' : Built L client id t') : t = t' := by
  cases Eq.trans (Eq.symm h) h'
  rfl

namespace BitcoinCoreSv2

variable {s s' : BitcoinCoreSv2} {t : TemplateData} {client : BlockTemplateIpcClient}

-- The data that is stored and what has been sent are of templates of that kind.
structure Sound (L : Library) (P : TemplateData → Prop) (s : BitcoinCoreSv2) : Prop where
  stored : ∀ id t, s.templateData.lookup id = some t → P t
  sent   : ∀ m ∈ s.outgoingMessages, Tells L P m

namespace Sound

theorem mono (h : s.Sound L P) (hp : ∀ t, P t → Q t) : s.Sound L Q where
  stored id t ht := hp t (h.stored id t ht)
  sent m hm      := (h.sent m hm).mono hp

theorem of_eq (h : s.Sound L P) (ht : s'.templateData = s.templateData)
    (ho : s'.outgoingMessages = s.outgoingMessages) : s'.Sound L P where
  stored id t hl := h.stored id t (ht ▸ hl)
  sent m hm      := h.sent m (ho ▸ hm)

theorem save (h : s.Sound L P) (ht : P t) : (s.save t).Sound L P where
  stored id t' hl := by
    rw [BitcoinCoreSv2.save, Map.lookup_insert_ite] at hl
    split at hl
    case isTrue  =>
      cases hl
      exact ht
    case isFalse => exact h.stored id t' hl
  sent            := h.sent

theorem send (h : s.Sound L P) {ms : List TemplateDistribution} (hm : ∀ m ∈ ms, Tells L P m) :
    (s.send ms).Sound L P where
  stored    := h.stored
  sent m hs := (List.mem_append.mp hs).elim (h.sent m) (hm m)

theorem handleRequestTransactionData (h : s.Sound L P) {msg : RequestTransactionData} :
    (s.handleRequestTransactionData L msg).Sound L P := by
  have error (e : RequestTransactionDataError) :
      (s.send [.requestTransactionDataError e]).Sound L P := by
    refine h.send fun m hm => ?_
    rw [List.mem_singleton.mp hm]
    trivial
  rw [BitcoinCoreSv2.handleRequestTransactionData]
  split
  case isTrue  => exact error _
  case isFalse =>
    split
    case h_2      => exact error _
    case h_1 t ht =>
      split
      case h_1 e _    => cases e <;> exact h.of_eq rfl rfl
      case h_2 data hd =>
        refine h.send fun m hm => ?_
        rw [List.mem_singleton.mp hm]
        exact ⟨t, h.stored _ t ht, hd⟩

theorem run (h : s.Sound L P) (hp : ∀ t, Built L client s.templateIdFactory t → P t) :
    (s.run L client).Sound L P := by
  rw [BitcoinCoreSv2.run]
  split
  case h_1      => exact h.of_eq rfl rfl
  case h_2 t ht =>
    have ht : P t := hp t ht
    have hn : s.nextTemplateId.Sound L P := h.of_eq rfl rfl
    split
    case h_1      => exact h.of_eq rfl rfl
    case h_2 m hm =>
      have hs : ((s.nextTemplateId.send [.newTemplate m,
          .setNewPrevHash (t.getSetNewPrevHashMessage L)]).save t).Sound L P := by
        refine (hn.send fun m' hm' => ?_).save ht
        obtain rfl | hm' := List.mem_cons.mp hm'
        · exact ⟨t, true, ht, hm⟩
        · rw [List.mem_singleton.mp hm']
          exact ⟨t, ht, rfl⟩
      exact hs.of_eq rfl rfl

theorem expire (h : s.Sound L P) {ids : List TemplateId} :
    (s.processStaleTemplateData ids).Sound L P where
  stored id t hl := h.stored id t (lookup_foldl_erase hl)
  sent           := h.sent

end Sound

end BitcoinCoreSv2

namespace Instance

variable {s s' s₁ : Instance} {a : Action} {i : ℕ} {p p' : Phase} {template base : Template}
variable {t : TemplateData} {n : UInt32}

-- Everything in the instance is of templates of that kind, or of block templates that got an id.
structure Sound (L : Library) (P : TemplateData → Prop)
    (F : BlockTemplateIpcClient → TemplateId → Prop) (s : Instance) : Prop where
  cells    : s.cells.Sound L P
  monitors : ∀ p ∈ s.monitors, p.Carries L P F

namespace Sound

theorem mono (h : s.Sound L P F) (hp : ∀ t, P t → Q t) (hf : ∀ client id, F client id → G client id) :
    s.Sound L Q G where
  cells         := h.cells.mono hp
  monitors p hm := (h.monitors p hm).mono hp hf

theorem setCells {cells : BitcoinCoreSv2} (h : s.Sound L P F) (hc : cells.Sound L P) :
    (s.setCells cells).Sound L P F :=
  ⟨hc, h.monitors⟩

theorem setMonitor (h : s.Sound L P F) (hp : p.Carries L P F) : (s.setMonitor i p).Sound L P F where
  cells          := h.cells
  monitors p' hm := by
    obtain hm | rfl := List.mem_or_eq_of_mem_set hm
    · exact h.monitors p' hm
    · exact hp

theorem exit (h : s.Sound L P F) : (s.exit i).Sound L P F :=
  h.setMonitor trivial

theorem cancel (h : s.Sound L P F) : s.cancel.Sound L P F :=
  h.setCells (h.cells.of_eq rfl rfl)

theorem fail (h : s.Sound L P F) : (s.fail i).Sound L P F :=
  h.cancel.exit

theorem failWith {ε : Type} {e : Fault ε} (h : s.Sound L P F) : (s.failWith i e).Sound L P F := by
  cases e with
  | err      => exact h.fail
  | panicked => exact h.exit

theorem newWaitNextRequest (h : s.Sound L P F) : (s.newWaitNextRequest i).Sound L P F := by
  rw [Instance.newWaitNextRequest.eq_def]
  split
  case h_1 => exact h.failWith
  case h_2 =>
    have hs : { s with waitNextRequestCounter := s.waitNextRequestCounter + 1 }.Sound L P F :=
      ⟨h.cells, h.monitors⟩
    exact hs.setMonitor trivial

-- A new block template gets the next id.
theorem onWaitNext {reply : Reply} (h : s.Sound L P F)
    (hf : ∀ client, reply = .template client → (s.onWaitNext i base n reply).cells.templateIdFactory =
      s.cells.templateIdFactory + 1 → F client s.cells.templateIdFactory) :
    (s.onWaitNext i base n reply).Sound L P F := by
  have hs : { s with waitNextRequestCounter := s.waitNextRequestCounter - 1 }.Sound L P F :=
    ⟨h.cells, h.monitors⟩
  rw [Instance.onWaitNext.eq_def] at hf ⊢
  split
  case h_1 => exact h.fail
  case h_2 =>
    dsimp only at hf ⊢
    split
    case isTrue  => exact hs.exit
    case isFalse hc =>
      cases reply with
      | timeout          => exact hs.newWaitNextRequest
      | invalid | failed => exact hs.fail
      | template client  =>
        have hs : ({ s with
            waitNextRequestCounter   := s.waitNextRequestCounter - 1
            currentTemplateIpcClient := some ⟨client, base.constraints⟩ }.setCells
              s.cells.nextTemplateId).Sound L P F := ⟨h.cells.of_eq rfl rfl, h.monitors⟩
        refine hs.setMonitor (hf client rfl ?_)
        dsimp only
        rw [if_neg hc]
        rfl

theorem onTemplateData (h : s.Sound L P F) (ht : P t) :
    (s.onTemplateData L i template t).Sound L P F := by
  rw [Instance.onTemplateData.eq_def]
  split
  case h_1 => exact h.fail
  case h_2 =>
    split
    case isFalse => exact h.setMonitor ht
    case isTrue  =>
      have hs : (s.setCells { s.cells.save t with
          currentPrevHash := some t.getPrevHash
          expiring        := s.cells.expiring ++ [s.cells.templateData.keys] }).Sound L P F :=
        h.setCells ((h.cells.save ht).of_eq rfl rfl)
      dsimp only
      split
      case h_1      => exact hs.failWith
      case h_2 m hm => exact hs.setMonitor ⟨ht, hm⟩

theorem onFetch {id : TemplateId} (h : s.Sound L P F) (hf : F template.ipcClient id)
    (hp : ∀ client id t, F client id → Built L client id t → P t) :
    (s.onFetch L i template id).Sound L P F := by
  rw [Instance.onFetch.eq_def]
  split
  case h_1      => exact h.failWith
  case h_2 t ht => exact h.onTemplateData (hp _ _ t hf ht)

theorem onWake (h : s.Sound L P F) (ht : P t) : (s.onWake L i template t).Sound L P F := by
  rw [Instance.onWake.eq_def]
  split
  case h_1      => exact h.failWith
  case h_2 m hm => exact h.setMonitor ⟨ht, hm⟩

theorem announce {m : NewTemplate} {future : Bool} (h : s.Sound L P F) (ht : P t)
    (hm : t.getNewTemplateMessage L future = .ok m) : (s.announce i template m).Sound L P F := by
  have hs : (s.cells.send [.newTemplate m]).Sound L P := by
    refine h.cells.send fun m' hm' => ?_
    rw [List.mem_singleton.mp hm']
    exact ⟨t, future, ht, hm⟩
  exact ⟨hs, h.monitors⟩

theorem onSend (h : s.Sound L P F) (hp : p.Carries L P F) (hs : s.onSend L i p = some s') :
    s'.Sound L P F := by
  cases p with
  | announcing =>
    cases hs
    exact (h.announce hp.left hp.right).setMonitor hp.left
  | activating t =>
    cases hs
    refine (h.setCells (h.cells.send fun m hm => ?_)).newWaitNextRequest
    rw [List.mem_singleton.mp hm]
    exact ⟨t, hp, rfl⟩
  | updating template t m =>
    cases hs
    have ha : (s.announce i template m).Sound L P F := h.announce hp.left hp.right
    exact (ha.setCells (ha.cells.save hp.left)).newWaitNextRequest
  | starting | waiting | fetching | sleeping | exited => cases hs

theorem onFail (h : s.Sound L P F) (hs : s.onFail i p = some s') : s'.Sound L P F := by
  cases p with
  | starting | announcing | activating | updating =>
    cases hs
    exact h.fail
  | waiting | fetching | sleeping | exited        => cases hs

end Sound

section Factory

-- No id is given, and what has been sent stays.
structure Extends (s s' : Instance) : Prop where
  factory : s'.cells.templateIdFactory = s.cells.templateIdFactory
  sent    : s.cells.outgoingMessages <+: s'.cells.outgoingMessages

namespace Extends

theorem of_eq (hf : s'.cells.templateIdFactory = s.cells.templateIdFactory)
    (hs : s'.cells.outgoingMessages = s.cells.outgoingMessages) : s.Extends s' :=
  ⟨hf, hs ▸ List.prefix_rfl⟩

theorem trans (h : s.Extends s₁) (h' : s₁.Extends s') : s.Extends s' :=
  ⟨h'.factory.trans h.factory, h.sent.trans h'.sent⟩

theorem failWith {ε : Type} {e : Fault ε} : s.Extends (s.failWith i e) := by
  cases e <;> exact of_eq rfl rfl

theorem newWaitNextRequest : s.Extends (s.newWaitNextRequest i) := by
  rw [Instance.newWaitNextRequest.eq_def]
  split
  case h_1 => exact failWith
  case h_2 => exact of_eq rfl rfl

theorem onTemplateData : s.Extends (s.onTemplateData L i template t) := by
  rw [Instance.onTemplateData.eq_def]
  split
  case h_1 => exact of_eq rfl rfl
  case h_2 =>
    split
    case isFalse => exact of_eq rfl rfl
    case isTrue  =>
      have hs : s.Extends (s.setCells { s.cells.save t with
          currentPrevHash := some t.getPrevHash
          expiring        := s.cells.expiring ++ [s.cells.templateData.keys] }) := of_eq rfl rfl
      dsimp only
      split
      case h_1 => exact hs.trans failWith
      case h_2 => exact hs.trans (of_eq rfl rfl)

theorem onFetch {id : TemplateId} : s.Extends (s.onFetch L i template id) := by
  rw [Instance.onFetch.eq_def]
  split
  case h_1 => exact failWith
  case h_2 => exact onTemplateData

theorem onWake : s.Extends (s.onWake L i template t) := by
  rw [Instance.onWake.eq_def]
  split
  case h_1 => exact failWith
  case h_2 => exact of_eq rfl rfl

theorem onSend (h : s.onSend L i p = some s') : s.Extends s' := by
  have send {ms : List TemplateDistribution} : s.Extends (s.setCells (s.cells.send ms)) :=
    ⟨rfl, List.prefix_append _ _⟩
  cases p with
  | announcing =>
    cases h
    exact ⟨rfl, List.prefix_append _ _⟩
  | activating =>
    cases h
    exact send.trans newWaitNextRequest
  | updating template t m =>
    cases h
    have hs : s.Extends ((s.announce i template m).setCells ((s.announce i template m).cells.save t)) :=
      ⟨rfl, List.prefix_append _ _⟩
    exact hs.trans newWaitNextRequest
  | starting | waiting | fetching | sleeping | exited => cases h

theorem onFail (h : s.onFail i p = some s') : s.Extends s' := by
  cases p with
  | starting | announcing | activating | updating =>
    cases h
    exact of_eq rfl rfl
  | waiting | fetching | sleeping | exited        => cases h

theorem handleRequestTransactionData {msg : RequestTransactionData} :
    s.Extends (s.setCells (s.cells.handleRequestTransactionData L msg)) := by
  have send {ms : List TemplateDistribution} : s.Extends (s.setCells (s.cells.send ms)) :=
    ⟨rfl, List.prefix_append _ _⟩
  rw [BitcoinCoreSv2.handleRequestTransactionData]
  split
  case isTrue  => exact send
  case isFalse =>
    split
    case h_2 => exact send
    case h_1 =>
      split
      case h_2     => exact send
      case h_1 e _ => cases e <;> exact of_eq rfl rfl

end Extends

-- What a step makes of the factory of the ids: at most one id is given, to a new block template.
inductive Advances (s : Instance) (a : Action) (s' : Instance) : Prop
  | stays (h : s.Extends s')
  | next (client : BlockTemplateIpcClient) (ha : a = .run client ∨ ∃ i, a = .waitNext i (.template client))
    (h : s'.cells.templateIdFactory = s.cells.templateIdFactory + 1)
    (hs : s.cells.outgoingMessages <+: s'.cells.outgoingMessages)

theorem Advances.sent (h : s.Advances a s') : s.cells.outgoingMessages <+: s'.cells.outgoingMessages := by
  cases h with
  | stays h      => exact h.sent
  | next _ _ _ h => exact h

theorem run_advances {cells : BitcoinCoreSv2} {client : BlockTemplateIpcClient} :
    (cells.run L client).templateIdFactory = cells.templateIdFactory + 1 ∧
      cells.outgoingMessages <+: (cells.run L client).outgoingMessages := by
  rw [BitcoinCoreSv2.run]
  split
  case h_1 => exact ⟨rfl, List.prefix_rfl⟩
  case h_2 =>
    split
    case h_1 => exact ⟨rfl, List.prefix_rfl⟩
    case h_2 => exact ⟨rfl, List.prefix_append _ _⟩

theorem onWaitNext_advances {reply : Reply} :
    s.Advances (.waitNext i reply) (s.onWaitNext i base n reply) := by
  rw [onWaitNext.eq_def]
  split
  case h_1 => exact .stays (.of_eq rfl rfl)
  case h_2 =>
    dsimp only
    split
    case isTrue  => exact .stays (.of_eq rfl rfl)
    case isFalse =>
      cases reply with
      | invalid | failed => exact .stays (.of_eq rfl rfl)
      | template client  => exact .next client (.inr ⟨i, rfl⟩) rfl List.prefix_rfl
      | timeout          =>
        have hs : s.Extends { s with waitNextRequestCounter := s.waitNextRequestCounter - 1 } :=
          .of_eq rfl rfl
        exact .stays (hs.trans .newWaitNextRequest)

theorem advances_of_step (h : s.step L a = some s') : s.Advances a s' := by
  cases a <;> simp only [step] at h
  case run client =>
    split at h <;> cases h
    exact .next client (.inl rfl) run_advances.left run_advances.right
  case start i =>
    split at h <;> cases h
    exact .stays .newWaitNextRequest
  case waitNext i reply =>
    split at h <;> cases h
    exact onWaitNext_advances
  case fetch i =>
    split at h <;> cases h
    exact .stays .onFetch
  case wake i =>
    split at h <;> cases h
    exact .stays .onWake
  case send i =>
    obtain ⟨p, _, h⟩ := Option.bind_eq_some_iff.mp h
    exact .stays (.onSend h)
  case fail i =>
    obtain ⟨p, _, h⟩ := Option.bind_eq_some_iff.mp h
    exact .stays (.onFail h)
  case coinbaseOutputConstraints client =>
    split at h <;> cases h
    exact .stays (.of_eq rfl rfl)
  case constraintsFail =>
    split at h <;> cases h
    exact .stays (.of_eq rfl rfl)
  case requestTransactionData msg =>
    split at h <;> cases h
    exact .stays .handleRequestTransactionData
  case expire i =>
    obtain ⟨cells, hc, rfl⟩ := Option.map_eq_some_iff.mp h
    obtain ⟨ids, _, rfl⟩ := Option.map_eq_some_iff.mp hc
    exact .stays (.of_eq rfl rfl)
  case cancel =>
    cases h
    exact .stays (.of_eq rfl rfl)

end Factory

section Issued

variable {tr : List (Machine.Event Instance Action)} {client client' : BlockTemplateIpcClient}
variable {id : TemplateId}

-- The event gives the id to the block template.
structure Issues (e : Machine.Event Instance Action) (client : BlockTemplateIpcClient)
    (id : TemplateId) : Prop where
  act  : e.act = .run client ∨ ∃ i, e.act = .waitNext i (.template client)
  pre  : e.pre.cells.templateIdFactory = id
  post : e.post.cells.templateIdFactory = id + 1

def Issued (tr : List (Machine.Event Instance Action)) (client : BlockTemplateIpcClient)
    (id : TemplateId) : Prop :=
  ∃ e ∈ tr, Issues e client id

-- The data of a block template that has got an id in the run.
def Made (L : Library) (tr : List (Machine.Event Instance Action)) (t : TemplateData) : Prop :=
  ∃ client, Issued tr client t.templateId ∧ Built L client t.templateId t

theorem Issued.append {tr' : List (Machine.Event Instance Action)} (h : Issued tr client id) :
    Issued (tr ++ tr') client id :=
  have ⟨e, he, hi⟩ := h
  ⟨e, List.mem_append_left _ he, hi⟩

theorem Made.append {tr' : List (Machine.Event Instance Action)} (h : Made L tr t) :
    Made L (tr ++ tr') t :=
  have ⟨client, hi, hb⟩ := h
  ⟨client, hi.append, hb⟩

theorem sound_step (h : s.Sound L P F) (hp : ∀ client id t, F client id → Built L client id t → P t)
    (hf : ∀ client, Issues ⟨s, a, s'⟩ client s.cells.templateIdFactory →
      F client s.cells.templateIdFactory) (hs : s.step L a = some s') : s'.Sound L P F := by
  cases a <;> simp only [step] at hs
  case run client =>
    split at hs <;> cases hs
    refine ⟨h.cells.run fun t ht => hp _ _ t (hf client ⟨.inl rfl, rfl, run_advances.left⟩) ht,
      fun p hm => ?_⟩
    have hm : p ∈ if (s.cells.run L client).monitorsTemplates then [Phase.starting] else [] := hm
    split at hm
    case isTrue  =>
      rw [List.mem_singleton.mp hm]
      trivial
    case isFalse => cases hm
  case start i =>
    split at hs <;> cases hs
    exact h.newWaitNextRequest
  case waitNext i reply =>
    split at hs <;> cases hs
    refine h.onWaitNext fun client hr hc => hf client ⟨.inr ⟨i, hr ▸ rfl⟩, rfl, hc⟩
  case fetch i =>
    split at hs
    case h_1 hm =>
      cases hs
      exact h.onFetch (h.monitors _ (List.mem_of_getElem? hm)) hp
    case h_2 => cases hs
  case wake i =>
    split at hs
    case h_1 hm =>
      cases hs
      exact h.onWake (h.monitors _ (List.mem_of_getElem? hm))
    case h_2 => cases hs
  case send i =>
    obtain ⟨p, hm, hs⟩ := Option.bind_eq_some_iff.mp hs
    exact h.onSend (h.monitors p (List.mem_of_getElem? hm)) hs
  case fail i =>
    obtain ⟨p, _, hs⟩ := Option.bind_eq_some_iff.mp hs
    exact h.onFail hs
  case coinbaseOutputConstraints client =>
    split at hs <;> cases hs
    refine ⟨h.cells, fun p hm => ?_⟩
    obtain hm | hm := List.mem_append.mp hm
    · exact h.monitors p hm
    · rw [List.mem_singleton.mp hm]
      trivial
  case constraintsFail =>
    split at hs <;> cases hs
    exact h.setCells (h.cells.of_eq rfl rfl)
  case requestTransactionData msg =>
    split at hs <;> cases hs
    exact h.setCells h.cells.handleRequestTransactionData
  case expire i =>
    obtain ⟨cells, hc, rfl⟩ := Option.map_eq_some_iff.mp hs
    obtain ⟨ids, _, rfl⟩ := Option.map_eq_some_iff.mp hc
    exact h.setCells (h.cells.expire.of_eq rfl rfl)
  case cancel =>
    cases hs
    exact h.cancel

-- The condition: the ids are not used up.
def HasIds (s : Instance) (_ : Action) : Prop :=
  s.cells.templateIdFactory.toNat + 1 < 2 ^ 64

theorem factory_le_of_path (p : (tasks L).Path s tr s') (hc : Machine.Along HasIds tr) :
    s.cells.templateIdFactory.toNat ≤ s'.cells.templateIdFactory.toNat := by
  induction p with
  | nil => exact Nat.le_refl _
  | @snoc _ s _ _ _ hs ih =>
    obtain ⟨hc, hl⟩ := Machine.Along.snoc.mp hc
    refine (ih hc).trans ?_
    cases advances_of_step hs with
    | stays h      => rw [h.factory]
    | next _ _ h _ =>
      have hl : s.cells.templateIdFactory.toNat + 1 < 2 ^ 64 := hl
      rw [h, UInt64.toNat_add, UInt64.toNat_one]
      omega

theorem lt_of_issued (r : (tasks L).Run tr s) (hc : Machine.Along HasIds tr)
    (h : Issued tr client id) : id.toNat < s.cells.templateIdFactory.toNat := by
  obtain ⟨e, he, hi⟩ := h
  obtain ⟨tr₁, tr₂, rfl, _, p⟩ := r.split he
  obtain ⟨_, hc⟩ := Machine.Along.append.mp hc
  have hl := factory_le_of_path p fun e' he' => hc e' (List.mem_cons_of_mem _ he')
  have hid : e.pre.cells.templateIdFactory.toNat + 1 < 2 ^ 64 := hc e List.mem_cons_self
  have hn := congrArg UInt64.toNat hi.post
  rw [UInt64.toNat_add, UInt64.toNat_one] at hn
  rw [hi.pre] at hid
  omega

-- No two block templates have the same id.
theorem issued_unique (r : (tasks L).Run tr s) (hc : Machine.Along HasIds tr)
    (h : Issued tr client id) (h' : Issued tr client' id) : client = client' := by
  obtain ⟨s₀, hi, p⟩ := r
  induction p with
  | nil =>
    obtain ⟨_, he, _⟩ := h
    cases he
  | @snoc tr s s' a p hs ih =>
    obtain ⟨hc, _⟩ := Machine.Along.snoc.mp hc
    have last {client : BlockTemplateIpcClient} (h : Issued (tr ++ [⟨s, a, s'⟩]) client id) :
        Issued tr client id ∨ Issues ⟨s, a, s'⟩ client id := by
      obtain ⟨e, he, h⟩ := h
      obtain he | he := List.mem_append.mp he
      · exact .inl ⟨e, he, h⟩
      · exact .inr (List.mem_singleton.mp he ▸ h)
    have old {client : BlockTemplateIpcClient} (h : Issued tr client id) :
        id ≠ s.cells.templateIdFactory := by
      have hl := lt_of_issued ⟨s₀, hi, p⟩ hc h
      rintro rfl
      exact lt_irrefl _ hl
    obtain h | h := last h
    · obtain h' | h' := last h'
      · exact ih hc h h'
      · exact absurd h'.pre.symm (old h)
    · obtain h' | h' := last h'
      · exact absurd h.pre.symm (old h')
      · obtain ha | ⟨i, ha⟩ := h.act
        · obtain ha' | ⟨i', ha'⟩ := h'.act
          · cases ha.symm.trans ha'
            rfl
          · cases ha.symm.trans ha'
        · obtain ha' | ⟨i', ha'⟩ := h'.act
          · cases ha.symm.trans ha'
          · cases ha.symm.trans ha'
            rfl

theorem Made.unique {t t' : TemplateData} (r : (tasks L).Run tr s) (hc : Machine.Along HasIds tr)
    (h : Made L tr t) (h' : Made L tr t') (ht : t.templateId = t'.templateId) : t = t' := by
  obtain ⟨client, hi, hb⟩ := h
  obtain ⟨client', hi', hb'⟩ := h'
  rw [ht] at hi hb
  cases issued_unique r hc hi hi'
  exact hb.unique hb'

end Issued

end Instance

end BitcoinCore
