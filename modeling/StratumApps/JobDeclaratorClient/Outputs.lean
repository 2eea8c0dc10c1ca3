import StratumApps.JobDeclaratorClient.Works

open Sv2 Handler StratumCore

namespace Jdc

variable {C : StratumCore} {cfg : Config}

-- How a handler ends that cannot decode the stored outputs, or finds none.
inductive BadOutputs : Fault JDCError → Prop
  | undecodable : BadOutputs (.err .channelManagerHasBadCoinbaseOutputs)
  | empty : BadOutputs (.panicked "index out of bounds")

-- Outputs that both decoders take, and that have a first one for the value of a template.
structure Usable (C : StratumCore) (bytes : Bytes) : Prop where
  consensus   : ∃ outputs, C.consensusDecode bytes = .ok outputs
  deserialize : ∃ output outputs, C.deserializeOutputs bytes = .ok (output :: outputs)

theorem not_badOutputs_panicked {msg : String} (h : msg ≠ "index out of bounds") :
    ¬BadOutputs (.panicked msg) := by
  intro hb
  cases hb
  exact h rfl

theorem not_badOutputs_binarySv2 : ¬BadOutputs (.err .binarySv2) := by
  intro hb
  cases hb

section Rounds

variable {κ μ ε : Type} [JobMessage μ] {J : JobStore κ μ ε}

theorem jobOf_avoids {channel : κ} {msg : NewTemplate} : Avoids BadOutputs (jobOf J channel msg) := by
  rw [jobOf]
  split
  case isTrue =>
    rw [futureJobOf]
    refine .bind (.expect (not_badOutputs_panicked (by decide))) fun _ _ => ?_
    exact .bind (.expect (not_badOutputs_panicked (by decide))) fun _ _ => .of_pure
  case isFalse =>
    rw [activeJobOf]
    exact .bind (.expect (not_badOutputs_panicked (by decide))) fun _ _ => .of_pure

theorem activeJobOf_avoids {channel : κ} : Avoids BadOutputs (activeJobOf J channel) := by
  rw [activeJobOf]
  exact .bind (.expect (not_badOutputs_panicked (by decide))) fun _ _ => .of_pure

theorem channelNewTemplate_avoids {d : DownstreamId} {mining : μ → Mining} {msg : NewTemplate}
    {outputs : List TxOut} {channelId : ChannelId} {channel : κ}
    {r : Registry × List RouteMessageTo} :
    Avoids BadOutputs (channelNewTemplate J d mining msg outputs channelId channel r) := by
  rw [channelNewTemplate]
  split
  case h_1 => exact .of_pure
  case h_2 => exact .bind jobOf_avoids fun _ _ => .of_pure

theorem channelSetNewPrevHash_avoids {d : DownstreamId} {silent : Bool} {msg : SetNewPrevHash}
    {channelId : ChannelId} {channel : κ} {messages : List RouteMessageTo} :
    Avoids BadOutputs (channelSetNewPrevHash J d silent msg channelId channel messages) := by
  rw [channelSetNewPrevHash]
  split
  case h_1 => exact .of_pure
  case h_2 =>
    split
    case isTrue  => exact .of_pure
    case isFalse => exact .bind activeJobOf_avoids fun _ _ => .of_pure

end Rounds

theorem forEach_avoids {κ : Type} [DecidableEq κ] {α σ : Type} {m : Map κ α} {s : σ}
    {f : κ → α → σ → Except (Fault JDCError) (α × σ)} (h : ∀ k v s, Avoids BadOutputs (f k v s)) :
    Avoids BadOutputs (m.forEach f s) :=
  fun e he => Map.forEachEntry_ne fun k v s => h k v s e he

namespace Downstream

variable {d : DownstreamId} {D : Downstream C} {msg : NewTemplate} {outputs : List TxOut}

theorem groupChannelJob_avoids : Avoids BadOutputs (D.groupChannelJob msg outputs) := by
  rw [groupChannelJob]
  split
  case h_1 => exact .of_pure
  case h_2 =>
    refine .bind ?_ fun _ _ => .of_pure
    rw [groupNewTemplate]
    split
    case h_1 => exact .of_pure
    case h_2 => exact .bind jobOf_avoids fun _ _ => .of_pure

theorem channelsNewTemplate_avoids {group : Option C.Group} {groupJob : Option ExtendedJob}
    {registry : Registry} {messages : List RouteMessageTo} :
    Avoids BadOutputs (D.channelsNewTemplate d msg outputs group groupJob registry messages) := by
  rw [channelsNewTemplate]
  refine .bind (forEach_avoids fun _ _ _ => ?_) fun _ _ => .bind (forEach_avoids fun _ _ _ => ?_)
    fun _ _ => .of_pure
  · rw [standardNewTemplate.eq_def]
    split
    case isTrue  => exact channelNewTemplate_avoids
    case isFalse =>
      split
      case h_1 => exact .of_pure
      case h_2 => split <;> exact .of_pure
  · exact channelNewTemplate_avoids

theorem setNewPrevHash_avoids {msg : SetNewPrevHash} {messages : List RouteMessageTo} :
    Avoids BadOutputs (D.setNewPrevHash d msg messages) := by
  rw [setNewPrevHash]
  refine .bind ?_ fun _ _ => .bind (forEach_avoids fun _ _ _ => channelSetNewPrevHash_avoids)
    fun _ _ => .bind (forEach_avoids fun _ _ _ => channelSetNewPrevHash_avoids) fun _ _ => .of_pure
  rw [groupSetNewPrevHash]
  split
  case h_1 => exact .of_pure
  case h_2 => exact .bind activeJobOf_avoids fun _ _ => .of_pure

end Downstream

namespace ChannelManager

variable {s : ChannelManager C} {outputs : List TxOut}

theorem downstreamNewTemplate_avoids {msg : NewTemplate} {d : DownstreamId} {D : Downstream C}
    {r : ChannelManager C × List RouteMessageTo} :
    Avoids BadOutputs (downstreamNewTemplate msg outputs d D r) := by
  rw [downstreamNewTemplate]
  refine .bind Downstream.groupChannelJob_avoids fun _ _ => .bind ?_ fun _ _ =>
    .bind Downstream.channelsNewTemplate_avoids fun _ _ => .of_pure
  rw [customNewTemplate]
  split
  case h_2 => exact .of_pure
  case h_1 =>
    split
    case isTrue  =>
      exact .bind (.expect (not_badOutputs_panicked (by decide))) fun _ _ => .of_pure
    case isFalse => exact .of_pure

-- With usable outputs, the handlers come past the decoding and the first output.
theorem handleNewTemplate_avoids (hu : Usable C s.coinbaseOutputs) {msg : NewTemplate} :
    Avoids BadOutputs (s.handleNewTemplate cfg msg) := by
  obtain ⟨output, outputs, ho⟩ := hu.deserialize
  have ho : C.deserializeOutputs (s.storeTemplate msg).coinbaseOutputs = .ok (output :: outputs) := ho
  rw [handleNewTemplate]
  dsimp only
  rw [ho]
  exact .bind .ok fun _ h => .bind (by cases h; exact .ok) fun _ _ =>
    .bind (forEach_avoids fun _ _ _ => downstreamNewTemplate_avoids) fun _ _ => .of_pure

theorem handleSetNewPrevHash_avoids (hu : Usable C s.coinbaseOutputs) {msg : SetNewPrevHash} :
    Avoids BadOutputs (s.handleSetNewPrevHash cfg msg) := by
  obtain ⟨output, outputs, ho⟩ := hu.deserialize
  rw [handleSetNewPrevHash, ho]
  exact .bind .ok fun _ _ => .bind (forEach_avoids fun _ _ _ => Downstream.setNewPrevHash_avoids)
    fun _ _ => .of_pure

theorem declareTemplate_avoids {msg : RequestTransactionDataSuccess} {requestId : RequestId}
    {token : Bytes} {template : NewTemplate} {output : TxOut} {messages : List RouteMessageTo} :
    Avoids BadOutputs
      (s.declareTemplate msg requestId token template (output :: outputs) messages) := by
  rw [declareTemplate]
  refine .bind .ok fun _ _ => .bind ?_ fun _ _ => ?_
  · rw [txIds]
    refine .bind (.mapM fun _ _ => .expect (not_badOutputs_panicked (by decide))) fun _ _ => ?_
    exact .orErr not_badOutputs_binarySv2
  · split
    case h_1 => exact .of_pure
    case h_2 =>
      refine .bind ?_ fun _ _ => ?_
      · rw [declareJob]
        split
        case h_1 => exact .of_pure
        case h_2 =>
          exact .bind (.expect (not_badOutputs_panicked (by decide))) fun _ _ =>
            .bind (.expect (not_badOutputs_panicked (by decide))) fun _ _ =>
            .bind (.expect (not_badOutputs_panicked (by decide))) fun _ _ => .of_pure
      · dsimp only
        split <;> exact .of_pure

theorem handleRequestTxDataSuccess_avoids (hu : Usable C s.coinbaseOutputs)
    {msg : RequestTransactionDataSuccess} :
    Avoids BadOutputs (s.handleRequestTxDataSuccess cfg msg) := by
  obtain ⟨output, outputs, ho⟩ := hu.deserialize
  rw [handleRequestTxDataSuccess, ho]
  refine .bind .ok fun _ h => ?_
  cases h
  dsimp only
  split
  case h_1 => exact .of_pure
  case h_2 => exact .of_pure
  case h_3 => exact declareTemplate_avoids

theorem handleAllocateMiningJobTokenSuccess_usable {msg : AllocateMiningJobTokenSuccess}
    (hu : Usable C msg.coinbaseOutputs) :
    ∃ o, s.handleAllocateMiningJobTokenSuccess msg = .ok o ∧ o.error = none ∧
      o.manager.coinbaseOutputs = msg.coinbaseOutputs ∧ o.manager.allocateTokens = some msg := by
  obtain ⟨outputs, ho⟩ := hu.consensus
  rw [handleAllocateMiningJobTokenSuccess]
  split
  case isTrue  =>
    rw [ho]
    exact ⟨_, rfl, rfl, rfl, rfl⟩
  case isFalse => exact ⟨_, rfl, rfl, rfl, rfl⟩

-- The handler itself only fails, and the reply has been stored by then.
theorem handleAllocateMiningJobTokenSuccess_ne {msg : AllocateMiningJobTokenSuccess} {text : String} :
    s.handleAllocateMiningJobTokenSuccess msg ≠ .error (.panicked text) := by
  rw [handleAllocateMiningJobTokenSuccess]
  split
  case isTrue =>
    cases C.consensusDecode msg.coinbaseOutputs with
    | error e =>
      intro h
      cases h
    | ok outputs =>
      intro h
      cases h
  case isFalse =>
    intro h
    cases h

-- No handler fails because of the outputs that are stored.
structure Unharmed (cfg : Config) (s : ChannelManager C) : Prop where
  newTemplate    : ∀ msg, Avoids BadOutputs (s.handleNewTemplate cfg msg)
  setNewPrevHash : ∀ msg, Avoids BadOutputs (s.handleSetNewPrevHash cfg msg)
  requestTxData  : ∀ msg, Avoids BadOutputs (s.handleRequestTxDataSuccess cfg msg)
  allocate       : ∀ msg text,
    s.handleAllocateMiningJobTokenSuccess msg ≠ .error (.panicked text)

theorem unharmed_of_usable (hu : Usable C s.coinbaseOutputs) : s.Unharmed cfg where
  newTemplate _    := handleNewTemplate_avoids hu
  setNewPrevHash _ := handleSetNewPrevHash_avoids hu
  requestTxData _  := handleRequestTxDataSuccess_avoids hu
  allocate _ _     := handleAllocateMiningJobTokenSuccess_ne

end ChannelManager

namespace System

variable {s s' : System C} {a : Action}

-- The outputs that come with an action: from the job declarator, or from the configuration.
def brings : Action → Option Bytes
  | .jdsMessage (.allocateMiningJobTokenSuccess m) => some m.coinbaseOutputs
  | .fallback coinbaseOutputs                      => some coinbaseOutputs
  | _                                              => none

def BringsUsable (_ : System C) (a : Action) : Prop :=
  ∀ coinbaseOutputs, brings a = some coinbaseOutputs → Usable C coinbaseOutputs

theorem coinbaseOutputs_of_works {s s' : ChannelManager C} {declarations : List DeclareMiningJob}
    {jobs : List SetCustomMiningJob} (h : Works cfg s a s' declarations jobs) :
    s'.coinbaseOutputs = s.coinbaseOutputs ∨ brings a = some s'.coinbaseOutputs := by
  cases h with
  | kept hw       => exact .inl (congrArg Work.coinbaseOutputs hw)
  | mode          => exact .inl rfl
  | reset hw      => exact .inr (congrArg some (congrArg Work.coinbaseOutputs hw).symm)
  | allocated     => exact .inr rfl
  | accepted _ hw => exact .inl (congrArg Work.coinbaseOutputs hw)
  | refused       => exact .inl rfl
  | custom        => exact .inl rfl
  | @template _ _ _ _ s₁ _ _ _ _ ht hw =>
    obtain ⟨_, _, _, _, rfl⟩ := ht.frame
    exact .inl (congrArg Work.coinbaseOutputs hw)
  | @tip _ _ _ s₁ _ _ _ hc hw =>
    obtain ⟨_, _, _, rfl⟩ := hc.frame
    exact .inl (congrArg Work.coinbaseOutputs hw)
  | declared hd   => cases hd <;> exact .inl rfl
  | @opened _ _ _ _ s₁ _ _ _ _ hc hw =>
    obtain ⟨_, _, _, rfl⟩ := hc.frame
    exact .inl (congrArg Work.coinbaseOutputs hw)

theorem coinbaseOutputs_of_step (h : (machine C cfg).step s a = some s') :
    s'.manager.coinbaseOutputs = s.manager.coinbaseOutputs ∨
      brings a = some s'.manager.coinbaseOutputs := by
  obtain ⟨_, ha, _⟩ := acts_of_step h
  exact coinbaseOutputs_of_works (works_of_acts ha)

theorem usable_of_step (hu : Usable C s.manager.coinbaseOutputs) (hb : BringsUsable s a)
    (h : (machine C cfg).step s a = some s') : Usable C s'.manager.coinbaseOutputs := by
  cases coinbaseOutputs_of_step h with
  | inl he => exact he ▸ hu
  | inr he => exact hb _ he

-- A reply is taken over, the client goes on, and only a reply or a reset changes the outputs.
structure TakesOver (e : Machine.Event (System C) Action) : Prop where
  reply : ∀ msg, e.act = .jdsMessage (.allocateMiningJobTokenSuccess msg) →
    e.post.status = .running ∧ e.post.manager.coinbaseOutputs = msg.coinbaseOutputs ∧
      e.post.manager.allocateTokens = some msg
  other : brings e.act = none → e.post.manager.coinbaseOutputs = e.pre.manager.coinbaseOutputs

theorem takesOver_of_step (hb : BringsUsable s a) (h : (machine C cfg).step s a = some s') :
    TakesOver ⟨s, a, s'⟩ where
  reply msg ha := by
    have ha : a = .jdsMessage (.allocateMiningJobTokenSuccess msg) := ha
    subst ha
    obtain ⟨o, ho, he, hc, ht⟩ := s.manager.handleAllocateMiningJobTokenSuccess_usable (hb _ rfl)
    have h : s.step cfg _ = some s' := h
    rw [step] at h
    cases hs : s.status with
    | stopped fault =>
      rw [hs] at h
      cases h
    | running =>
      rw [hs] at h
      cases h
      rw [act, ChannelManager.handleJobDeclarationMessageFromServer, ho, deliver, he]
      exact ⟨hs, hc, ht⟩
  other ha := by
    cases coinbaseOutputs_of_step h with
    | inl he => exact he
    | inr he =>
      have ha : brings a = none := ha
      rw [ha] at he
      cases he

-- With usable outputs in every reply, and in the configurations, no handler fails because of them.
theorem unharmed_of_path {s₀ : System C} {tr : List (Machine.Event (System C) Action)}
    (hu : Usable C s₀.manager.coinbaseOutputs) (p : (machine C cfg).Path s₀ tr s)
    (hb : Machine.Along BringsUsable tr) : s.manager.Unharmed cfg ∧ ∀ e ∈ tr, TakesOver e := by
  refine ⟨ChannelManager.unharmed_of_usable ?_, fun e he => takesOver_of_step (hb e he) (p.step_of_mem he)⟩
  exact p.invariant (I := fun s => Usable C s.manager.coinbaseOutputs)
    (fun _ _ _ hu hb h => usable_of_step hu hb h) hb hu

end System

-- A client that is told to pay no outputs.
namespace Unpaid

open Sample

def allocateNone : Action :=
  .jdsMessage (.allocateMiningJobTokenSuccess ⟨1, [1], [0]⟩)

def outOfBounds {C : StratumCore} : Result C → Bool
  | .error (.panicked text) => text = "index out of bounds"
  | _                       => false

theorem eq_of_outOfBounds {r : Result reference} (h : outOfBounds r) :
    r = .error (.panicked "index out of bounds") := by
  rw [outOfBounds.eq_def] at h
  split at h
  case h_1 => rw [of_decide_eq_true h]
  case h_2 => cases h

theorem usable_coinbaseOutputs : Usable reference coinbaseOutputs where
  consensus   := ⟨_, rfl⟩
  deserialize := ⟨_, _, rfl⟩

theorem usable_rewardOutputs : Usable reference rewardOutputs where
  consensus   := ⟨_, rfl⟩
  deserialize := ⟨_, _, rfl⟩

theorem none_exec : (((machine reference (config [] [])).exec (start rewardOutputs)
      [allocateNone]).any fun s =>
        outOfBounds (s.manager.handleNewTemplate (config [] []) (template 2 false))) ∧
    ((machine reference (config [] [])).exec (start rewardOutputs)
      [allocate [1], future 1, newTemplate 2]).isSome ∧
    ((machine reference (config [] [])).trace (start rewardOutputs)
      [allocate [1], future 1, newTemplate 2]).length = 3 := by
  decide +kernel

end Unpaid

open Sample Unpaid in
theorem not_takesOver : ¬∀ s₀ tr s, (machine reference (config [] [])).Init s₀ →
    Usable reference s₀.manager.coinbaseOutputs →
      (machine reference (config [] [])).Path s₀ tr s → s.manager.Unharmed (config [] []) := by
  intro h
  obtain ⟨hexec, _⟩ := none_exec
  obtain ⟨s, hs, hp⟩ := Option.any_eq_true _ _ |>.mp hexec
  have hu := h _ _ s start_init usable_rewardOutputs (Machine.Path.of_exec hs)
  exact hu.newTemplate _ _ .empty (eq_of_outOfBounds hp)

open Sample Unpaid in
theorem unharmed_sample : ∃ tr s, (machine reference (config [] [])).Path (start rewardOutputs) tr s ∧
    tr.length = 3 ∧ s.manager.Unharmed (config [] []) ∧ ∀ e ∈ tr, System.TakesOver e := by
  obtain ⟨_, hexec, hl⟩ := none_exec
  obtain ⟨s, hs⟩ := Option.isSome_iff_exists.mp hexec
  have p := Machine.Path.of_exec hs
  have hb : Machine.Along System.BringsUsable ((machine reference (config [] [])).trace
      (start rewardOutputs) [allocate [1], future 1, newTemplate 2]) := by
    intro e he outputs ho
    have ha := Machine.act_of_mem_trace he
    simp only [List.mem_cons, List.not_mem_nil, or_false] at ha
    obtain ha | ha | ha := ha
    · rw [ha] at ho
      cases ho
      exact usable_coinbaseOutputs
    · rw [ha] at ho
      cases ho
    · rw [ha] at ho
      cases ho
  exact ⟨_, s, p, hl, System.unharmed_of_path usable_rewardOutputs p hb⟩

end Jdc
