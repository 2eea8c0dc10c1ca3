import StratumApps.JobDeclaratorClient.Tolerance
import StratumApps.JobDeclaratorClient.Traits

open Sv2 Handler StratumCore

namespace StratumCore.JobStore

variable {κ μ ε : Type} {J : JobStore κ μ ε} {f f' : JobId → Option TemplateId} {c c' : κ}
variable {k : ChannelId} {t : NewTemplate} {p : SetNewPrevHash} {outputs : List TxOut} {j : JobId}
variable {job : Job μ}

theorem Knows.of_keeps (h : J.Knows c' job) (hk : J.Keeps c c') : J.Knows c job := by
  rwa [Knows, Accepts, hk.activeJob, hk.pastJobs, hk.futureJob] at h

variable [JobMessage μ]

-- The template of each job that a channel knows is on record under the id of the job.
def Enrolled (J : JobStore κ μ ε) (f : JobId → Option TemplateId) (c : κ) : Prop :=
  ∀ job, J.Knows c job → ∃ t, job.getTemplateId = some t ∧ f job.getJobId = some t

-- What a channel may have become without new jobs: its jobs are on record where they have been.
def Follows (J : JobStore κ μ ε) : Option κ → κ → Prop :=
  Map.Continues (fun c c' => ∀ f, J.Enrolled f c → J.Enrolled f c') fun _ => False

theorem follows_composes : Map.Composes J.Follows :=
  Map.Continues.composes (fun _ _ => id) (fun _ _ _ h h' f => h' f ∘ h f) fun _ _ => False.elim

theorem Follows.of_keeps (hk : J.Keeps c c') : J.Follows (some c) c' :=
  .kept fun _ h job hj => h job (hj.of_keeps hk)

-- The job that a channel makes of a template is put on record, and the records of other jobs stay.
theorem Enrolled.made (h : J.Enrolled f c) (hm : J.Makes c t outputs job)
    (hk : ∀ job', J.Knows c' job' → job' = job ∨ J.Knows c job')
    (hr : f' job.getJobId = some t.templateId) (hf : ∀ j, j ≠ job.getJobId → f' j = f j) :
    J.Enrolled f' c' := by
  intro job' hj'
  obtain rfl | hj' := hk job' hj'
  · exact ⟨t.templateId, by rw [Job.getTemplateId, hm.template]; rfl, hr⟩
  · obtain ⟨t', ht', hr'⟩ := h job' hj'
    exact ⟨t', ht', (hf _ (hm.fresh job' hj')).trans hr'⟩

end StratumCore.JobStore

namespace StratumCore

end StratumCore

namespace Jdc

variable {C : StratumCore} {cfg : Config} {d d' : DownstreamId} {c c' : ChannelId} {j : JobId}
variable {registry registry' : Registry} {t : NewTemplate} {p : SetNewPrevHash} {outputs : List TxOut}

section Jobs

variable {κ μ ε : Type} [JobMessage μ] {J : JobStore κ μ ε} {x x₀ x₁ x₂ x' : κ} {job : Job μ}
variable {k : ChannelId}

-- What the registry knows of the jobs of a channel.
def templateOf (registry : Registry) (d : DownstreamId) (c : ChannelId) (j : JobId) :
    Option TemplateId :=
  registry.lookup ⟨d, c, j⟩

theorem templateOf_insert_of_ne {t : TemplateId} (h : ¬(d' = d ∧ c' = c)) :
    templateOf (registry.insert ⟨d, c, j⟩ t) d' c' = templateOf registry d' c' := by
  funext j'
  exact AList.lookup_insert_ne fun he => h (by cases he; exact ⟨rfl, rfl⟩)

variable {mining : μ → Mining} {r r' : Registry × List RouteMessageTo}

end Jobs

namespace Downstream

variable {D D' : Downstream C} {ready ready' : ChannelId → Prop}

def Opens (D : Downstream C) (c : ChannelId) : Prop :=
  c ∈ D.standardChannels ∨ c ∈ D.extendedChannels

-- The registry knows all jobs of the extended channels, and those of the standard channels when they
-- are in no group. An open channel has an id of its own, and what else it needs for a share.
structure Enrolled (d : DownstreamId) (registry : Registry) (ready : ChannelId → Prop)
    (D : Downstream C) : Prop where
  extended : ∀ c x, D.extendedChannels.lookup c = some x →
    C.extended.Enrolled (templateOf registry d c) x
  standard : D.groupChannels = none → ∀ c x, D.standardChannels.lookup c = some x →
    C.standard.Enrolled (templateOf registry d c) x
  apart    : ∀ c, c ∈ D.standardChannels → c ∉ D.extendedChannels
  below    : ∀ c, D.Opens c → c.toNat < D.channelIdFactory.toNat
  ready    : ∀ c, D.Opens c → ready c

theorem Enrolled.mono (h : D.Enrolled d registry ready)
    (hr : ∀ c, D.Opens c → templateOf registry' d c = templateOf registry d c)
    (hv : ∀ c, D.Opens c → ready c → ready' c) : D.Enrolled d registry' ready' where
  extended c x hx    := by
    rw [hr c (.inr (Map.mem_iff_lookup.mpr ⟨x, hx⟩))]
    exact h.extended c x hx
  standard hg c x hx := by
    rw [hr c (.inl (Map.mem_iff_lookup.mpr ⟨x, hx⟩))]
    exact h.standard hg c x hx
  apart              := h.apart
  below              := h.below
  ready c hc         := hv c hc (h.ready c hc)

-- No channel is opened, and no channel gets a job.
structure Stays (D D' : Downstream C) : Prop where
  standard         : D.standardChannels.Stems C.standard.Follows D'.standardChannels
  extended         : D.extendedChannels.Stems C.extended.Follows D'.extendedChannels
  group            : D'.groupChannels = none → D.groupChannels = none
  channelIdFactory : D'.channelIdFactory = D.channelIdFactory

theorem Stays.refl (D : Downstream C) : D.Stays D where
  standard         := .refl JobStore.follows_composes _
  extended         := .refl JobStore.follows_composes _
  group            := id
  channelIdFactory := rfl

theorem Stays.trans {D₁ : Downstream C} (h : D.Stays D₁) (h' : D₁.Stays D') : D.Stays D' where
  standard         := h.standard.trans JobStore.follows_composes h'.standard
  extended         := h.extended.trans JobStore.follows_composes h'.extended
  group            := h.group ∘ h'.group
  channelIdFactory := h'.channelIdFactory.trans h.channelIdFactory

theorem mem_of_stems {κ μ ε : Type} [JobMessage μ] {J : JobStore κ μ ε} {m m' : Map ChannelId κ}
    (h : m.Stems J.Follows m') (hc : c ∈ m') : c ∈ m := by
  obtain ⟨x', hx'⟩ := Map.mem_iff_lookup.mp hc
  obtain ⟨x, hx, _⟩ := h.of_continues hx'
  exact Map.mem_iff_lookup.mpr ⟨x, hx⟩

theorem Stays.opens (h : D.Stays D') (hc : D'.Opens c) : D.Opens c :=
  hc.imp (mem_of_stems h.standard) (mem_of_stems h.extended)

theorem Enrolled.stays (h : D.Enrolled d registry ready) (hs : D.Stays D') :
    D'.Enrolled d registry ready where
  extended c x' hx'    := by
    obtain ⟨x, hx, hf⟩ := hs.extended.of_continues hx'
    exact hf _ (h.extended c x hx)
  standard hg c x' hx' := by
    obtain ⟨x, hx, hf⟩ := hs.standard.of_continues hx'
    exact hf _ (h.standard (hs.group hg) c x hx)
  apart c hc hc'       := h.apart c (mem_of_stems hs.standard hc) (mem_of_stems hs.extended hc')
  below c hc           := hs.channelIdFactory ▸ h.below c (hs.opens hc)
  ready c hc           := h.ready c (hs.opens hc)

section Open

variable {x : C.Standard} {y : C.Extended}

theorem Enrolled.not_opens (h : D.Enrolled d registry ready) : ¬D.Opens D.channelIdFactory :=
  fun hc => absurd (h.below _ hc) (lt_irrefl _)

theorem toNat_succ (h : c.toNat + 1 < 2 ^ 32) : (c + 1).toNat = c.toNat + 1 := by
  have hs := UInt32.toNat_add c 1
  rw [UInt32.toNat_one] at hs
  omega

-- The id of the next channel may be passed over.
theorem Enrolled.skip (h : D.Enrolled d registry ready) (hs : D.channelIdFactory.toNat + 1 < 2 ^ 32) :
    { D with channelIdFactory := D.channelIdFactory + 1 }.Enrolled d registry ready where
  extended      := h.extended
  standard      := h.standard
  apart         := h.apart
  below c hc    := by
    rw [toNat_succ hs]
    exact Nat.lt_succ_of_lt (h.below c hc)
  ready         := h.ready

theorem Enrolled.register {t : TemplateId} (h : D.Enrolled d registry ready)
    (hv : ∀ c, ready c → ready' c) :
    D.Enrolled d (registry.insert ⟨d, D.channelIdFactory, j⟩ t) ready' :=
  h.mono (fun _ hc => templateOf_insert_of_ne fun he => h.not_opens (he.right ▸ hc)) fun c _ => hv c

end Open

end Downstream

end Jdc
