import StratumApps.Lib.Stems
import StratumApps.JobDeclaratorClient.Works

open Sv2 Handler StratumCore

namespace StratumCore.ShareChannels

variable {κ μ ω ε : Type} {S : ShareChannels κ μ ω ε} {c c' c'' : κ}

-- The jobs and the prefix of the channel stay.
structure Kept (S : ShareChannels κ μ ω ε) (c c' : κ) : Prop extends S.Keeps c c' where
  extranoncePrefix : S.getExtranoncePrefix c' = S.getExtranoncePrefix c

theorem Kept.refl (c : κ) : S.Kept c c where
  toKeeps          := JobStore.Keeps.refl S.toJobStore c
  extranoncePrefix := rfl

theorem Kept.trans (h : S.Kept c c') (h' : S.Kept c' c'') : S.Kept c c'' where
  toKeeps          := h.toKeeps.trans h'.toKeeps
  extranoncePrefix := h'.extranoncePrefix.trans h.extranoncePrefix

variable [JobMessage μ] [ShareMessage ω]

end StratumCore.ShareChannels

namespace Jdc

variable {C : StratumCore} {cfg : Config} {d : DownstreamId}

-- What the channels of a downstream may come from, a relation for each kind of channel.
structure Origins (C : StratumCore) where
  standard : Option C.Standard → C.Standard → Prop
  extended : Option C.Extended → C.Extended → Prop
  group    : Option C.Group → C.Group → Prop

structure Origins.Composes (R : Origins C) : Prop where
  standard : Map.Composes R.standard
  extended : Map.Composes R.extended
  group    : Map.Composes R.group

-- The channels take a template. A standard channel may take the job of its group behind it.
def Origins.template (t : NewTemplate) (outputs : List TxOut) : Origins C where
  standard o x' := ∃ x, o = some x ∧ (x' = x ∨ x' = (C.standard.onNewTemplate x t outputs).2 ∨
    ∃ job, x' = (C.standard.onGroupChannelJob (C.standard.onNewTemplate x t outputs).2 job).2)
  extended o x' := ∃ x, o = some x ∧ x' = (C.extended.onNewTemplate x t outputs).2
  group o x'    := ∃ x, o = some x ∧ x' = (C.group.onNewTemplate x t outputs).2

-- The channels take a prev hash.
def Origins.tip (p : SetNewPrevHash) : Origins C where
  standard o x' := ∃ x, o = some x ∧ x' = (C.standard.onSetNewPrevHash x p).2
  extended o x' := ∃ x, o = some x ∧ x' = (C.extended.onSetNewPrevHash x p).2
  group o x'    := ∃ x, o = some x ∧ x' = (C.group.onSetNewPrevHash x p).2

structure Downstream.Stems (R : Origins C) (D D' : Downstream C) : Prop where
  standard : D.standardChannels.Stems R.standard D'.standardChannels
  extended : D.extendedChannels.Stems R.extended D'.extendedChannels
  group    : ∀ g', D'.groupChannels = some g' → R.group D.groupChannels g'

namespace Downstream.Stems

variable {R Q : Origins C} {D D₁ D' : Downstream C}

theorem new (R : Origins C) (D : Downstream C) : D.Stems R .new where
  standard    := .empty
  extended    := .empty
  group _ hg' := by cases hg'

theorem refl (hR : R.Composes) (D : Downstream C) : D.Stems R D where
  standard    := .refl hR.standard _
  extended    := .refl hR.extended _
  group g' hg' := hg' ▸ hR.group.refl g'

theorem trans (hR : R.Composes) (h : D.Stems R D₁) (h' : D₁.Stems R D') : D.Stems R D' where
  standard := h.standard.trans hR.standard h'.standard
  extended := h.extended.trans hR.extended h'.extended
  group g' hg' := by
    have hg := h'.group g' hg'
    cases hD : D₁.groupChannels with
    | none   => exact hR.group.none _ _ (hD ▸ hg)
    | some g => exact hR.group.trans _ g _ (h.group g hD) (hD ▸ hg)

theorem mono (h : D.Stems R D') (hs : ∀ o x, R.standard o x → Q.standard o x)
    (he : ∀ o x, R.extended o x → Q.extended o x) (hg : ∀ o x, R.group o x → Q.group o x) :
    D.Stems Q D' where
  standard     := h.standard.mono hs
  extended     := h.extended.mono he
  group g' hg' := hg _ _ (h.group g' hg')

end Downstream.Stems

namespace ChannelManager

variable {s s' s₁ s₂ : ChannelManager C} {D D' D₁ : Downstream C} {o : Outcome C} {R Q : Origins C}

-- The channels of a downstream that has not been there come from nothing.
def Stems (R : Origins C) (s s' : ChannelManager C) : Prop :=
  s.downstream.Stems (fun o D' => (o.getD .new).Stems R D') s'.downstream

theorem stems_composes (hR : R.Composes) :
    Map.Composes fun (o : Option (Downstream C)) D' => (o.getD .new).Stems R D' where
  refl D           := .refl hR D
  none o D h       := by
    cases o with
    | none   => exact h
    | some _ => exact (Downstream.Stems.new R _).trans hR h
  trans o D D' h h' := h.trans hR h'

theorem Stems.trans (hR : R.Composes) (h : s.Stems R s₁) (h' : s₁.Stems R s') : s.Stems R s' :=
  Map.Stems.trans (stems_composes hR) h h'

theorem stems_of_downstream (hR : R.Composes) (hd : s'.downstream = s.downstream) : s.Stems R s' := by
  rw [Stems, hd]
  exact .refl (stems_composes hR) _

-- What new channels are made from.
def work₀ (s : ChannelManager C) : Option NewTemplate × Option SetNewPrevHash × Bytes :=
  (s.lastFutureTemplate, s.lastNewPrevHash, s.coinbaseOutputs)

structure Start (s : ChannelManager C) (t : NewTemplate) (p : SetNewPrevHash) (paid : List TxOut) :
    Prop where
  template : s.lastFutureTemplate = some t
  prevHash : s.lastNewPrevHash = some p
  paid     : ∃ outputs, C.deserializeOutputs s.coinbaseOutputs = .ok outputs ∧
    payRemaining t.coinbaseTxValueRemaining outputs = some paid

theorem Start.congr {t : NewTemplate} {p : SetNewPrevHash} {paid : List TxOut}
    (h : s₁.Start t p paid) (hs : s₁.work₀ = s.work₀) : s.Start t p paid := by
  obtain ⟨ht, hp, ho⟩ : s₁.lastFutureTemplate = s.lastFutureTemplate ∧
      s₁.lastNewPrevHash = s.lastNewPrevHash ∧ s₁.coinbaseOutputs = s.coinbaseOutputs := by
    simpa only [work₀, Prod.mk.injEq] using hs
  exact ⟨ht ▸ h.template, hp ▸ h.prevHash, ho ▸ h.paid⟩

-- A channel that was fresh before it has taken the template and the prev hash.
structure Opened {κ μ ε : Type} (J : JobStore κ μ ε) (s : ChannelManager C) (x : κ) : Prop where
  opened : ∃ t p paid k x₀ x₁ x₂, s.Start t p paid ∧ J.Fresh x₀ k ∧
    J.onNewTemplate x₀ t paid = (.ok (), x₁) ∧ J.onSetNewPrevHash x₁ p = (.ok (), x₂) ∧
    J.Keeps x₂ x

-- One for shares has a prefix of the factory, too.
structure OpenedShares {κ μ ω ε : Type} (S : ShareChannels κ μ ω ε) (s : ChannelManager C)
    (factory : C.Extranonce) (x : κ) : Prop extends Opened S.toJobStore s x where
  extranoncePrefix : ∀ upstream, C.extranonce.From upstream factory →
    upstream <+: S.getExtranoncePrefix x

section Opened

variable {κ μ ω ε : Type} {J : JobStore κ μ ε} {S : ShareChannels κ μ ω ε} {x x' : κ}
variable {factory factory₁ : C.Extranonce}

theorem Opened.keeps (h : Opened J s x) (hk : J.Keeps x x') : Opened J s x' := by
  obtain ⟨t, p, paid, k, x₀, x₁, x₂, hs, hf, ht, hp, hx⟩ := h.opened
  exact ⟨t, p, paid, k, x₀, x₁, x₂, hs, hf, ht, hp, hx.trans hk⟩

theorem Opened.of_start (h : Opened J s₁ x) (hs : s₁.work₀ = s.work₀) : Opened J s x := by
  obtain ⟨t, p, paid, k, x₀, x₁, x₂, h₁, hf, ht, hp, hx⟩ := h.opened
  exact ⟨t, p, paid, k, x₀, x₁, x₂, h₁.congr hs, hf, ht, hp, hx⟩

theorem OpenedShares.kept (h : OpenedShares S s factory x) (hk : S.Kept x x') :
    OpenedShares S s factory x' where
  toOpened                     := h.toOpened.keeps hk.toKeeps
  extranoncePrefix upstream hu := hk.extranoncePrefix ▸ h.extranoncePrefix upstream hu

theorem OpenedShares.of_start (h : OpenedShares S s₁ factory₁ x) (hs : s₁.work₀ = s.work₀)
    (hf : ∀ upstream, C.extranonce.From upstream factory → C.extranonce.From upstream factory₁) :
    OpenedShares S s factory x where
  toOpened                     := h.toOpened.of_start hs
  extranoncePrefix upstream hu := h.extranoncePrefix upstream (hf upstream hu)

end Opened

-- The channels are those from before, with their jobs and their prefixes, or have been opened.
def evolved (s : ChannelManager C) : Origins C where
  standard := Map.Continues C.standard.Kept
    (OpenedShares C.standard.toShareChannels s s.extranoncePrefixFactoryStandard)
  extended := Map.Continues C.extended.Kept
    (OpenedShares C.extended.toShareChannels s s.extranoncePrefixFactoryExtended)
  group    := Map.Continues C.group.Keeps (Opened C.group.toJobStore s)

theorem evolved_composes (s : ChannelManager C) : s.evolved.Composes where
  standard := Map.Continues.composes .refl (fun _ _ _ => .trans) fun _ _ => .kept
  extended := Map.Continues.composes .refl (fun _ _ _ => .trans) fun _ _ => .kept
  group    := Map.Continues.composes (.refl _) (fun _ _ _ => .trans) fun _ _ => .keeps

-- The factories go on.
structure Factories (s s' : ChannelManager C) : Prop where
  standard : ∀ upstream, C.extranonce.From upstream s.extranoncePrefixFactoryStandard →
    C.extranonce.From upstream s'.extranoncePrefixFactoryStandard
  extended : ∀ upstream, C.extranonce.From upstream s.extranoncePrefixFactoryExtended →
    C.extranonce.From upstream s'.extranoncePrefixFactoryExtended

theorem Factories.refl (s : ChannelManager C) : s.Factories s :=
  ⟨fun _ => id, fun _ => id⟩

theorem Factories.trans (h : s.Factories s₁) (h' : s₁.Factories s') : s.Factories s' where
  standard upstream hu := h'.standard upstream (h.standard upstream hu)
  extended upstream hu := h'.extended upstream (h.extended upstream hu)

-- No job and no prefix of a channel changes, and new channels start alike.
structure Evolves (s s' : ChannelManager C) : Prop where
  channels  : s.Stems s.evolved s'
  factories : s.Factories s'
  start     : s'.work₀ = s.work₀
  upstream  : s'.upstreamChannel.map C.upstream.getExtranoncePrefix =
    s.upstreamChannel.map C.upstream.getExtranoncePrefix

theorem Stems.evolved_congr (h : s₁.Stems s₂.evolved s') (hs : s₂.work₀ = s.work₀)
    (hf : s.Factories s₂) : s₁.Stems s.evolved s' :=
  Map.Stems.mono h fun _ _ hD => hD.mono
    (fun _ _ hx => hx.imp (fun _ _ => id) fun _ hx => hx.of_start hs hf.standard)
    (fun _ _ hx => hx.imp (fun _ _ => id) fun _ hx => hx.of_start hs hf.extended)
    (fun _ _ hx => hx.imp (fun _ _ => id) fun _ hx => hx.of_start hs)

theorem Evolves.trans (h : s.Evolves s₁) (h' : s₁.Evolves s') : s.Evolves s' where
  channels  := h.channels.trans s.evolved_composes (h'.channels.evolved_congr h.start h.factories)
  factories := h.factories.trans h'.factories
  start     := h'.start.trans h.start
  upstream  := h'.upstream.trans h.upstream

-- A handler that leaves the channels alone.
theorem evolves_of_same (hd : s'.downstream = s.downstream)
    (hs : s'.extranoncePrefixFactoryStandard = s.extranoncePrefixFactoryStandard)
    (he : s'.extranoncePrefixFactoryExtended = s.extranoncePrefixFactoryExtended)
    (hw : s'.work₀ = s.work₀) (hu : s'.upstreamChannel.map C.upstream.getExtranoncePrefix =
      s.upstreamChannel.map C.upstream.getExtranoncePrefix) : s.Evolves s' where
  channels  := stems_of_downstream s.evolved_composes hd
  factories := ⟨fun _ h => hs ▸ h, fun _ h => he ▸ h⟩
  start     := hw
  upstream  := hu

theorem Evolves.refl (s : ChannelManager C) : s.Evolves s :=
  evolves_of_same rfl rfl rfl rfl rfl

section Open

variable {template : NewTemplate} {prevHash : SetNewPrevHash} {paid : List TxOut}
variable {extranoncePrefix : Bytes} {factory : C.Extranonce}

end Open

section Downstream

end Downstream

section Vardiff

end Vardiff

section Templates

variable {κ μ ε : Type} [JobMessage μ] {J : JobStore κ μ ε}
variable {t : NewTemplate} {p : SetNewPrevHash} {outputs : List TxOut} {channelId : ChannelId}
variable {messages messages' : List RouteMessageTo} {c c' : κ} {r r' : Registry × List RouteMessageTo}

theorem Stems.mono (h : s.Stems R s') (hs : ∀ o x, R.standard o x → Q.standard o x)
    (he : ∀ o x, R.extended o x → Q.extended o x) (hg : ∀ o x, R.group o x → Q.group o x) :
    s.Stems Q s' :=
  Map.Stems.mono h fun _ _ hD => hD.mono hs he hg

end Templates

end ChannelManager

end Jdc
