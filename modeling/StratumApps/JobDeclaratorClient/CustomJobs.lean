import StratumApps.JobDeclaratorClient.Works

open Sv2 Handler StratumCore

namespace StratumCore

variable {κ μ ε : Type} [JobMessage μ] {J : JobStore κ μ ε} {c c' : κ} {t : NewTemplate}
variable {outputs : List TxOut}

-- Whether a custom job is made does not depend on the jobs made before, nor on the request id.
structure JobFactories.Steady {φ : Type} (F : JobFactories φ) : Prop where
  newCustomJob : ∀ f c r r' token tip t outputs size,
    (F.newCustomJob (F.newCustomJob f c r token tip t outputs size).2 c r' token tip t outputs
      size).1.isOk = (F.newCustomJob f c r token tip t outputs size).1.isOk

end StratumCore

namespace Jdc

variable {C : StratumCore} {cfg : Config}

namespace Downstream

variable {d : DownstreamId} {D : Downstream C} {msg : NewTemplate} {outputs : List TxOut}

end Downstream

namespace ChannelManager

variable {s s' : ChannelManager C} {upstream : C.Upstream} {token : Bytes}
variable {prevHash : SetNewPrevHash} {msg : NewTemplate} {outputs : List TxOut}

-- Whether the factory makes a custom job of the template.
def makesJob (upstream : C.Upstream) (token : Bytes) (prevHash : SetNewPrevHash)
    (template : NewTemplate) (outputs : List TxOut) (factory : C.JobFactory) (requestId : RequestId) :
    Bool :=
  (C.jobFactory.newCustomJob factory (C.upstream.getChannelId upstream) requestId token
    (chainTip prevHash) template outputs (C.upstream.getFullExtranonceSize upstream)).1.isOk

theorem makeCustomJob_length (s : ChannelManager C) (upstream : C.Upstream) (token : Bytes)
    (prevHash : SetNewPrevHash) (msg : NewTemplate) (outputs : List TxOut) (factory : C.JobFactory) :
    (s.makeCustomJob factory upstream token prevHash msg outputs).2.toList.length =
      (makesJob upstream token prevHash msg outputs factory s.requestIdFactory).toNat := by
  simp only [makeCustomJob, makesJob]
  split
  case h_1 h =>
    rw [h]
    rfl
  case h_2 h =>
    rw [h]
    rfl

-- The factory that is left makes a job exactly when the one before has made one.
theorem makeCustomJob_steady (hF : C.jobFactory.Steady) (s : ChannelManager C)
    (upstream : C.Upstream) (token : Bytes) (prevHash : SetNewPrevHash) (msg : NewTemplate)
    (outputs : List TxOut) (factory : C.JobFactory) :
    ∃ factory', (s.makeCustomJob factory upstream token prevHash msg outputs).1.jobFactory =
        some factory' ∧
      ∀ r, makesJob upstream token prevHash msg outputs factory' r =
        makesJob upstream token prevHash msg outputs factory s.requestIdFactory := by
  refine ⟨_, ?_, fun r => hF.newCustomJob factory _ s.requestIdFactory r token _ msg outputs _⟩
  simp only [makeCustomJob]
  split <;> rfl

-- Either all the downstreams get a custom job made for them, or none does.
theorem Customizes.length (hF : C.jobFactory.Steady) {n : ℕ} {jobs : List SetCustomMiningJob}
    (h : Customizes upstream token prevHash msg outputs s n jobs s') :
    n = 0 ∧ jobs = [] ∧ s'.jobFactory = s.jobFactory ∧ s'.requestIdFactory = s.requestIdFactory ∨
      ∃ factory factory', s.jobFactory = some factory ∧ s'.jobFactory = some factory' ∧
        (∀ r, makesJob upstream token prevHash msg outputs factory' r =
          makesJob upstream token prevHash msg outputs factory s.requestIdFactory) ∧
        jobs.length = n * (makesJob upstream token prevHash msg outputs factory
          s.requestIdFactory).toNat := by
  induction h with
  | nil => exact .inl ⟨rfl, rfl, rfl, rfl⟩
  | register _ ih => exact ih
  | @custom n jobs s₁ factory _ hf ih =>
    obtain ⟨factory₁, hf₁, hm₁⟩ :=
      makeCustomJob_steady hF s₁ upstream token prevHash msg outputs factory
    have hl := s₁.makeCustomJob_length upstream token prevHash msg outputs factory
    right
    obtain ⟨rfl, rfl, hs, hr⟩ | ⟨factory₀, factory', hs, hs', hm, hj⟩ := ih
    · rw [hr] at hm₁ hl
      refine ⟨factory, factory₁, hs ▸ hf, hf₁, hm₁, ?_⟩
      rw [List.nil_append, hl, Nat.zero_add, Nat.one_mul]
    · cases hf.symm.trans hs'
      refine ⟨factory₀, factory₁, hs, hf₁, fun r => (hm₁ r).trans (hm _), ?_⟩
      rw [List.length_append, hj, hl, hm, Nat.add_mul, Nat.one_mul]

theorem Asks.unique {upstream' : C.Upstream} {token' : Bytes} {prevHash' : SetNewPrevHash}
    (h : s.Asks msg upstream token prevHash) (h' : s.Asks msg upstream' token' prevHash') :
    upstream' = upstream ∧ token' = token ∧ prevHash' = prevHash := by
  obtain ⟨t, ht, rfl⟩ := h.token
  obtain ⟨t', ht', rfl⟩ := h'.token
  cases ht.symm.trans ht'
  exact ⟨Option.some_inj.mp (h'.upstream.symm.trans h.upstream), rfl,
    Option.some_inj.mp (h'.prevHash.symm.trans h.prevHash)⟩

end ChannelManager

-- A client without templates of its own, with a token.
namespace Forwarded

open Sample

def joined : List Action :=
  [.setJdMode .coinbaseOnly, .setUpstreamState .noChannel, future 1, prevHash 1, .connect,
    openExtended 0, opened, allocate [1]]

-- A state in which the upstream can be asked for a job, and how often it is.
def asks (n : ℕ) (s : System reference) : Bool :=
  s.manager.upstreamChannel.isSome && s.manager.allocateTokens.isSome &&
    s.manager.lastNewPrevHash.isSome && s.manager.jdMode = .coinbaseOnly &&
    (s.manager.handleNewTemplate (config [] []) (template 2 false)).toOption.any fun o =>
      (customJobs o.messages).length = n

end Forwarded

end Jdc
