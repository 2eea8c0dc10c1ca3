import StratumApps.BitcoinCore.Tips

open Sv2 Handler

namespace BitcoinCore

variable {L : Library} {id : TemplateId} {known : TemplateId → Prop}

inductive SubmitSolutionError
  | templateNotFound
  | failedToSubmitSolution
  deriving DecidableEq

namespace BitcoinCoreSv2

variable {s s' s₁ : BitcoinCoreSv2} {client : BlockTemplateIpcClient} {t : TemplateData}

-- The template is looked up before the handler first waits. `submit` is `submit_solution` of the
-- template, which asks the node and writes the block to the disk.
def handleSubmitSolution (s : BitcoinCoreSv2)
    (submit : TemplateData → SubmitSolution → Except TemplateDataError Unit) (msg : SubmitSolution) :
    Except SubmitSolutionError Unit :=
  match s.templateData.lookup msg.templateId with
  | none   => .error .templateNotFound
  | some t =>
    match submit t msg with
    | .ok ()   => .ok ()
    | .error _ => .error .failedToSubmitSolution

-- The handlers find the template.
structure Knows (L : Library) (s : BitcoinCoreSv2) (id : TemplateId) : Prop where
  stored    : id ∈ s.templateData
  requested : ∀ msg : RequestTransactionData, msg.templateId = id →
    (s.handleRequestTransactionData L msg).outgoingMessages ≠ s.outgoingMessages ++
      [.requestTransactionDataError { templateId := id, errorCode := "template-id-not-found" }]
  submitted : ∀ submit (msg : SubmitSolution), msg.templateId = id →
    s.handleSubmitSolution submit msg ≠ .error .templateNotFound

theorem knows_of_mem (h : id ∈ s.templateData) : s.Knows L id where
  stored        := h
  requested     := by
    rintro msg rfl he
    obtain ⟨t, ht⟩ := Map.mem_iff_lookup.mp h
    rw [handleRequestTransactionData, ht] at he
    split at he
    case isTrue  => simp [send] at he
    case isFalse =>
      dsimp only at he
      split at he
      case h_2     => simp [send] at he
      case h_1 e _ => cases e <;> simp [messagesFail] at he
  submitted     := by
    rintro submit msg rfl he
    obtain ⟨t, ht⟩ := Map.mem_iff_lookup.mp h
    rw [handleSubmitSolution, ht] at he
    dsimp only at he
    split at he <;> cases he

-- A template that is stored, or that there is no need to store any more.
def Covers (known : TemplateId → Prop) (s : BitcoinCoreSv2) (id : TemplateId) : Prop :=
  id ∈ s.templateData ∨ known id

-- All templates stay, and those that are announced are held.
structure Stores (known : TemplateId → Prop) (s s' : BitcoinCoreSv2) : Prop where
  stale : s'.staleTemplateIds = s.staleTemplateIds
  data  : ∀ id ∈ s.templateData, id ∈ s'.templateData
  sent  : ∀ m, .newTemplate m ∈ s'.outgoingMessages →
    .newTemplate m ∈ s.outgoingMessages ∨ s'.Covers known m.templateId

namespace Stores

theorem of_eq (hs : s'.staleTemplateIds = s.staleTemplateIds) (hd : s'.templateData = s.templateData)
    (ho : s'.outgoingMessages = s.outgoingMessages) : s.Stores known s' where
  stale    := hs
  data _ h := hd ▸ h
  sent _ h := .inl (ho ▸ h)

theorem refl : s.Stores known s := of_eq rfl rfl rfl

theorem cancel (h : s.Stores known s') :
    s.Stores known { s' with globalCancellationToken := true } :=
  ⟨h.stale, h.data, h.sent⟩

theorem send {ms : List TemplateDistribution}
    (h : ∀ m, .newTemplate m ∈ ms → s.Covers known m.templateId) : s.Stores known (s.send ms) where
  stale     := rfl
  data _ h  := h
  sent m hm := (List.mem_append.mp hm).imp_right (h m)

theorem save (h : s.Stores known s') : s.Stores known (s'.save t) where
  stale     := h.stale
  data id k := (AList.mem_insert _).mpr (.inr (h.data id k))
  sent m hm := (h.sent m hm).imp_right (.imp_left fun k => (AList.mem_insert _).mpr (.inr k))

-- A template is stored behind its announcement, before anything else can happen.
theorem sendAndSave {m : NewTemplate} {ms : List TemplateDistribution}
    (hs : s'.staleTemplateIds = s.staleTemplateIds) (hd : s'.templateData = s.templateData)
    (ho : s'.outgoingMessages = s.outgoingMessages) (hm : m.templateId = t.templateId)
    (hn : ∀ m', .newTemplate m' ∈ ms → m' = m) : s.Stores known ((s'.send ms).save t) where
  stale     := hs
  data id k := (AList.mem_insert _).mpr (.inr (hd ▸ k))
  sent m' h := by
    obtain h | h := List.mem_append.mp h
    · exact .inl (ho ▸ h)
    · exact .inr (.inl ((AList.mem_insert _).mpr (.inl ((hn m' h) ▸ hm))))

theorem handleRequestTransactionData {msg : RequestTransactionData} :
    s.Stores known (s.handleRequestTransactionData L msg) := by
  rw [BitcoinCoreSv2.handleRequestTransactionData]
  split
  case isTrue  => exact send (by simp)
  case isFalse =>
    split
    case h_2 => exact send (by simp)
    case h_1 =>
      split
      case h_2     => exact send (by simp)
      case h_1 e _ => cases e <;> exact of_eq rfl rfl rfl

theorem run : s.Stores known (s.run L client) := by
  rw [BitcoinCoreSv2.run]
  split
  case h_1     => exact of_eq rfl rfl rfl
  case h_2 t _ =>
    split
    case h_1      => exact of_eq rfl rfl rfl
    case h_2 m hm =>
      have h : s.Stores known ((s.nextTemplateId.send
          [.newTemplate m, .setNewPrevHash (t.getSetNewPrevHashMessage L)]).save t) :=
        sendAndSave rfl rfl rfl (TemplateData.getNewTemplateMessage_notice hm).left (by simp)
      exact ⟨h.stale, h.data, h.sent⟩

end Stores

end BitcoinCoreSv2

-- A monitor in front of the channel has the message for the template that it holds, or will store.
def Phase.Ready (held : TemplateId → Prop) : Phase → Prop
  | .announcing _ _ m => held m.templateId
  | .updating _ t m   => m.templateId = t.templateId
  | _                 => True

theorem Phase.Ready.mono {held held' : TemplateId → Prop} {p : Phase} (h : p.Ready held)
    (hh : ∀ id, held id → held' id) : p.Ready held' := by
  cases p with
  | announcing => exact hh _ h
  | updating   => exact h
  | starting | waiting | fetching | activating | sleeping | exited => trivial

namespace Instance

variable {s s' s₁ : Instance} {a : Action} {i : ℕ} {p p' : Phase} {template base : Template}
variable {t : TemplateData} {n : UInt32} {tr : List (Machine.Event Instance Action)}

-- What a monitor does to the templates when it goes on.
structure Writes (known : TemplateId → Prop) (s : Instance) (i : ℕ) (s' : Instance) : Prop where
  cells    : s.cells.Stores known s'.cells
  monitors : ∃ p', s'.monitors = s.monitors.set i p' ∧ p'.Ready (s'.cells.Covers known)

namespace Writes

theorem set (hc : s.cells.Stores known s₁.cells) (hm : s₁.monitors = s.monitors)
    (hr : p'.Ready (s₁.cells.Covers known)) : s.Writes known i (s₁.setMonitor i p') :=
  ⟨hc, p', congrArg (List.set · i p') hm, hr⟩

theorem fail (hc : s.cells.Stores known s₁.cells) (hm : s₁.monitors = s.monitors) :
    s.Writes known i (s₁.fail i) :=
  ⟨hc.cancel, .exited, congrArg (List.set · i Phase.exited) hm, trivial⟩

theorem failWith {ε : Type} (e : Fault ε) (hc : s.cells.Stores known s₁.cells)
    (hm : s₁.monitors = s.monitors) : s.Writes known i (s₁.failWith i e) := by
  cases e with
  | err      => exact fail hc hm
  | panicked => exact set hc hm trivial

theorem newWaitNextRequest (hc : s.cells.Stores known s₁.cells) (hm : s₁.monitors = s.monitors) :
    s.Writes known i (s₁.newWaitNextRequest i) := by
  rw [Instance.newWaitNextRequest.eq_def]
  split
  case h_1 e _ => exact failWith e hc hm
  case h_2 => exact ⟨hc, _, congrArg (List.set · i _) hm, trivial⟩

theorem onWaitNext {reply : Reply} : s.Writes known i (s.onWaitNext i base n reply) := by
  rw [Instance.onWaitNext.eq_def]
  split
  case h_1 => exact fail .refl rfl
  case h_2 =>
    dsimp only
    split
    case isTrue  => exact ⟨.refl, .exited, rfl, trivial⟩
    case isFalse =>
      cases reply with
      | timeout          => exact newWaitNextRequest .refl rfl
      | invalid | failed => exact ⟨.cancel .refl, .exited, rfl, trivial⟩
      | template client  => exact ⟨.of_eq rfl rfl rfl, _, rfl, trivial⟩

theorem onTemplateData : s.Writes known i (s.onTemplateData L i template t) := by
  rw [Instance.onTemplateData.eq_def]
  split
  case h_1 => exact fail .refl rfl
  case h_2 =>
    split
    case isFalse => exact set .refl rfl trivial
    case isTrue  =>
      have hs : s.cells.Stores known { s.cells.save t with
          currentPrevHash := some t.getPrevHash
          expiring        := s.cells.expiring ++ [s.cells.templateData.keys] } :=
        have h : s.cells.Stores known (s.cells.save t) := .save .refl
        ⟨h.stale, h.data, h.sent⟩
      dsimp only
      split
      case h_1      => exact failWith _ hs rfl
      case h_2 m hm =>
        -- The template is stored before its message gets to the channel.
        refine set hs rfl (.inl ((AList.mem_insert _).mpr (.inl ?_)))
        exact (TemplateData.getNewTemplateMessage_notice hm).left

theorem onFetch {templateId : TemplateId} : s.Writes known i (s.onFetch L i template templateId) := by
  rw [Instance.onFetch.eq_def]
  split
  case h_1 => exact failWith _ .refl rfl
  case h_2 => exact onTemplateData

theorem onWake : s.Writes known i (s.onWake L i template t) := by
  rw [Instance.onWake.eq_def]
  split
  case h_1      => exact failWith _ .refl rfl
  case h_2 m hm => exact set .refl rfl (TemplateData.getNewTemplateMessage_notice hm).left

theorem onSend (hp : p.Ready (s.cells.Covers known)) (h : s.onSend L i p = some s') :
    s.Writes known i s' := by
  cases p with
  | announcing template t m =>
    cases h
    have hs : s.cells.Stores known (s.cells.send [.newTemplate m]) := by
      refine .send fun m' hm => ?_
      rw [List.mem_singleton, TemplateDistribution.newTemplate.injEq] at hm
      exact hm ▸ hp
    exact ⟨hs, _, rfl, trivial⟩
  | activating t            =>
    cases h
    exact newWaitNextRequest (.send (by simp)) rfl
  | updating template t m   =>
    cases h
    exact newWaitNextRequest (.sendAndSave rfl rfl rfl hp (by simp)) rfl
  | starting | waiting | fetching | sleeping | exited => cases h

theorem onFail (h : s.onFail i p = some s') : s.Writes known i s' := by
  cases p with
  | starting | announcing | activating | updating =>
    cases h
    exact fail .refl rfl
  | waiting | fetching | sleeping | exited        => cases h

end Writes

-- Every template that was announced is covered, and every one that is about to be will be.
structure Kept (known : TemplateId → Prop) (s : Instance) : Prop where
  announced : ∀ m, .newTemplate m ∈ s.cells.outgoingMessages → s.cells.Covers known m.templateId
  ready     : ∀ p ∈ s.monitors, p.Ready (s.cells.Covers known)

-- A step that stores, and one that makes templates stale.
inductive Turns (known : TemplateId → Prop) (s : Instance) (a : Action) (s' : Instance) : Prop
  | stores (hc : s.cells.Stores known s'.cells)
    (hm : ∀ p ∈ s'.monitors, p ∈ s.monitors ∨ p.Ready (s'.cells.Covers known))
  | expires (i : ℕ) (ids : List TemplateId) (ha : a = .expire i) (hi : s.cells.expiring[i]? = some ids)
    (hs : s'.cells.staleTemplateIds = ids)
    (hd : ∀ id ∈ s.cells.templateData, id ∈ s'.cells.templateData ∨ id ∈ ids)
    (ho : s'.cells.outgoingMessages = s.cells.outgoingMessages) (hm : s'.monitors = s.monitors)

theorem Writes.turns (h : s.Writes known i s') : s.Turns known a s' := by
  obtain ⟨p', hm, hr⟩ := h.monitors
  refine .stores h.cells fun p hp => ?_
  obtain hp | rfl := List.mem_or_eq_of_mem_set (hm ▸ hp)
  · exact .inl hp
  · exact .inr hr

theorem mem_foldl_erase {ids : List TemplateId} {m : Map TemplateId TemplateData} :
    id ∈ ids.foldl (fun m id => m.erase id) m ↔ id ∈ m ∧ id ∉ ids := by
  induction ids generalizing m with
  | nil             => simp
  | cons id' ids ih =>
    rw [List.foldl_cons, ih, AList.mem_erase, List.mem_cons]
    tauto

theorem turns_of_step (hk : s.Kept known) (h : s.step L a = some s') : s.Turns known a s' := by
  have quiet {cells : BitcoinCoreSv2} (hc : s.cells.Stores known cells) :
      s.Turns known a (s.setCells cells) := .stores hc fun _ hp => .inl hp
  cases a <;> simp only [step] at h
  case run client =>
    split at h <;> cases h
    refine .stores .run fun p hp => .inr ?_
    have hp : p ∈ if (s.cells.run L client).monitorsTemplates then [Phase.starting] else [] := hp
    split at hp
    case isTrue  =>
      rw [List.mem_singleton.mp hp]
      trivial
    case isFalse => cases hp
  case start i =>
    split at h <;> cases h
    exact Writes.turns (.newWaitNextRequest .refl rfl)
  case waitNext i reply =>
    split at h <;> cases h
    exact Writes.onWaitNext.turns
  case fetch i =>
    split at h <;> cases h
    exact Writes.onFetch.turns
  case wake i =>
    split at h <;> cases h
    exact Writes.onWake.turns
  case send i =>
    obtain ⟨p, hp, h⟩ := Option.bind_eq_some_iff.mp h
    exact (Writes.onSend (hk.ready p (List.mem_of_getElem? hp)) h).turns
  case fail i =>
    obtain ⟨p, _, h⟩ := Option.bind_eq_some_iff.mp h
    exact (Writes.onFail h).turns
  case coinbaseOutputConstraints client =>
    split at h <;> cases h
    refine .stores .refl fun p hp => (List.mem_append.mp hp).imp_right fun hp => ?_
    rw [List.mem_singleton.mp hp]
    trivial
  case constraintsFail =>
    split at h <;> cases h
    exact quiet (.of_eq rfl rfl rfl)
  case requestTransactionData msg =>
    split at h <;> cases h
    exact quiet .handleRequestTransactionData
  case expire i =>
    obtain ⟨cells, hc, rfl⟩ := Option.map_eq_some_iff.mp h
    obtain ⟨ids, hi, rfl⟩ := Option.map_eq_some_iff.mp hc
    refine .expires i ids rfl hi rfl (fun id k => ?_) rfl rfl
    by_cases hid : id ∈ ids
    case pos => exact .inr hid
    case neg => exact .inl (mem_foldl_erase.mpr ⟨k, hid⟩)
  case cancel =>
    cases h
    exact quiet (.cancel .refl)

theorem Kept.mono (h : s.Kept known) (ho : s'.cells.outgoingMessages = s.cells.outgoingMessages)
    {known' : TemplateId → Prop} (hm : s'.monitors = s.monitors)
    (hc : ∀ id, s.cells.Covers known id → s'.cells.Covers known' id) : s'.Kept known' where
  announced m hn := hc _ (h.announced m (ho ▸ hn))
  ready p hp     := (h.ready p (hm ▸ hp)).mono hc

theorem Kept.step (h : s.Kept known) (ht : s.Turns known a s') :
    s'.Kept fun id => known id ∨ id ∈ s'.cells.staleTemplateIds := by
  cases ht with
  | stores hc hm               =>
    have hk (id) (k : s.cells.Covers known id) : s'.cells.Covers (fun id => known id ∨
        id ∈ s'.cells.staleTemplateIds) id := k.imp (hc.data id) .inl
    refine ⟨fun m hn => ?_, fun p hp => ?_⟩
    · obtain hn | hn := hc.sent m hn
      · exact hk _ (h.announced m hn)
      · exact hn.imp_right .inl
    · obtain hp | hr := hm p hp
      · exact (h.ready p hp).mono hk
      · exact hr.mono fun _ k => k.imp_right .inl
  | expires i ids _ _ hs hd ho hm =>
    refine h.mono ho hm fun id k => ?_
    obtain k | k := k
    · exact (hd id k).imp_right fun k => .inr (hs ▸ k)
    · exact .inr (.inl k)

-- The template is stale in one of the states of the run.
def MadeStale (tr : List (Machine.Event Instance Action)) (id : TemplateId) : Prop :=
  ∃ e ∈ tr, id ∈ e.post.cells.staleTemplateIds

theorem kept_of_run (r : (tasks L).Run tr s) : s.Kept (MadeStale tr) := by
  obtain ⟨s₀, hi, p⟩ := r
  cases hi
  induction p with
  | nil                => exact ⟨fun _ h => (nomatch h), fun _ h => (nomatch h)⟩
  | snoc _ hs ih =>
    refine (ih.step (turns_of_step ih hs)).mono rfl rfl fun id k => k.imp_right ?_
    rintro (⟨e, he, hid⟩ | hid)
    · exact ⟨e, List.mem_append_left _ he, hid⟩
    · exact ⟨_, List.mem_concat_self, hid⟩

-- A task that wakes up finds no stale template that it does not make stale itself.
def Persists (s : Instance) (a : Action) : Prop :=
  ∀ i ids, a = .expire i → s.cells.expiring[i]? = some ids → s.cells.staleTemplateIds ⊆ ids

-- From the state on in which it has become stale, a template is stale, and is said to be.
def StaysStale (tr : List (Machine.Event Instance Action)) : Prop :=
  ∀ tr₁ e tr₂ id, tr = tr₁ ++ e :: tr₂ → id ∈ e.post.cells.staleTemplateIds → ∀ e' ∈ tr₂,
    id ∈ e'.post.cells.staleTemplateIds ∧
    ∀ msg, e'.act = .requestTransactionData msg → msg.templateId = id → e'.post.cells =
      e'.pre.cells.send [.requestTransactionDataError { templateId := id, errorCode := "stale-template-id" }]

section Stale

theorem Turns.stale (ht : s.Turns known a s') (hp : s.Persists a) :
    s.cells.staleTemplateIds ⊆ s'.cells.staleTemplateIds := by
  cases ht with
  | stores hc                => exact hc.stale ▸ List.Subset.refl _
  | expires i ids ha hi hs   => exact hs ▸ hp i ids ha hi

theorem persists_of_stale (h : s.step L a = some s')
    (hs : s.cells.staleTemplateIds ⊆ s'.cells.staleTemplateIds) : s.Persists a := by
  rintro i ids rfl hi
  obtain ⟨cells, hc, rfl⟩ := Option.map_eq_some_iff.mp h
  obtain ⟨ids', hi', rfl⟩ := Option.map_eq_some_iff.mp hc
  cases hi.symm.trans hi'
  exact hs

-- Nothing is stale before the first step.
theorem stale_last (r : (tasks L).Run tr s) (hid : id ∈ s.cells.staleTemplateIds) :
    ∃ tr₀ e₀, tr = tr₀ ++ [e₀] ∧ id ∈ e₀.post.cells.staleTemplateIds := by
  obtain ⟨s₀, hi, p⟩ := r
  cases p with
  | nil  =>
    cases hi
    cases hid
  | snoc => exact ⟨_, _, rfl, hid⟩

-- A stale template stays one along a path whose wakings persist.
theorem stale_of_path (p : (tasks L).Path s tr s')
    (hc : Machine.Along Persists tr) (hk : s.Kept fun _ => True) (hid : id ∈ s.cells.staleTemplateIds) :
    id ∈ s'.cells.staleTemplateIds := by
  have h : s'.Kept (fun _ => True) ∧ id ∈ s'.cells.staleTemplateIds := by
    refine p.invariant (I := fun s => s.Kept (fun _ => True) ∧ id ∈ s.cells.staleTemplateIds)
      (fun s a s' hi ha hs => ?_) hc ⟨hk, hid⟩
    have ht := turns_of_step hi.left hs
    exact ⟨(hi.left.step ht).mono rfl rfl fun _ k => k.imp_right fun _ => trivial, ht.stale ha hi.right⟩
  exact h.right

theorem requested_of_stale {msg : RequestTransactionData} (hid : msg.templateId ∈ s.cells.staleTemplateIds)
    (h : s.step L (.requestTransactionData msg) = some s') : s'.cells = s.cells.send
      [.requestTransactionDataError { templateId := msg.templateId, errorCode := "stale-template-id" }] := by
  rw [Instance.step] at h
  split at h <;> cases h
  rw [setCells, BitcoinCoreSv2.handleRequestTransactionData, if_pos hid]

end Stale

end Instance

-- Blocks arrive, more than the delay after one another.
namespace Blocks

open Sample Overtaken

def laterHeaderBytes : Bytes :=
  bytesOf 2 4 ++ bytesOf 9 32 ++ bytesOf 0 32 ++ bytesOf 12 4 ++ bytesOf 5 4 ++ bytesOf 0 4

def library : Library where
  __ := Overtaken.library
  deserializeHeader bytes :=
    if bytes = laterHeaderBytes then
      .ok { header with prevBlockhash := 9, time := 12 }
    else
      Overtaken.library.deserializeHeader bytes

def later : BlockTemplateIpcClient where
  __ := client
  getBlockHeader := .ok laterHeaderBytes

def arrives (client : BlockTemplateIpcClient) : List Instance.Action :=
  [.waitNext 0 (.template client), .fetch 0, .send 0, .send 0]

def oneBlock : List Instance.Action :=
  [.run client, .start 0] ++ arrives next

def twoBlocks : List Instance.Action :=
  oneBlock ++ [.expire 0] ++ arrives later

def request : Instance.Action :=
  .requestTransactionData { templateId := 0 }

theorem oneBlock_exec : ((tasks library).exec .new oneBlock).any (fun s =>
      .newTemplate template ∈ s.cells.outgoingMessages ∧ s.cells.staleTemplateIds = [] ∧
      ((tasks library).step s (.expire 0)).any fun s₁ => ((tasks library).step s₁ request).any fun s₂ =>
        s₂.cells.staleTemplateIds = [0]) ∧
    ∀ e ∈ (tasks library).trace .new oneBlock,
      e.pre.cells.staleTemplateIds = [] ∧ e.post.cells.staleTemplateIds = [] := by
  decide +kernel

theorem twoBlocks_exec : ((tasks library).exec .new twoBlocks).any fun s =>
    0 ∈ s.cells.staleTemplateIds ∧
      ((tasks library).step s (.expire 0)).any fun s₁ => ((tasks library).step s₁ request).any fun s₂ =>
        s₂.cells.outgoingMessages.getLast? = some (.requestTransactionDataError
          { templateId := 0, errorCode := "template-id-not-found" }) := by
  decide +kernel

end Blocks

open Instance in
theorem announced_known_until_stale {tr : List (Machine.Event Instance Instance.Action)} {s : Instance}
    (r : (tasks L).Run tr s) {m : NewTemplate} (hm : .newTemplate m ∈ s.cells.outgoingMessages)
    (hs : ¬MadeStale tr m.templateId) : s.cells.Knows L m.templateId :=
  BitcoinCoreSv2.knows_of_mem (((kept_of_run r).announced m hm).resolve_right hs)

open Blocks Sample in
theorem announced_known_until_stale_sample : ∃ tr s, (tasks Blocks.library).Run tr s ∧
    ¬Instance.MadeStale tr template.templateId ∧ s.cells.Knows Blocks.library template.templateId := by
  obtain ⟨s, hs, h⟩ := Option.any_eq_true _ _ |>.mp oneBlock_exec.left
  obtain ⟨hm, _⟩ := of_decide_eq_true h
  have r := Machine.Run.of_exec (M := tasks Blocks.library) rfl hs
  have hn : ¬Instance.MadeStale ((tasks Blocks.library).trace .new oneBlock) template.templateId := by
    rintro ⟨e, he, hid⟩
    rw [(oneBlock_exec.right e he).right] at hid
    cases hid
  exact ⟨_, s, r, hn, announced_known_until_stale r hm hn⟩

open Instance in
theorem stays_stale_iff {tr : List (Machine.Event Instance Instance.Action)} {s : Instance}
    (r : (tasks L).Run tr s) : StaysStale tr ↔ Machine.Along Persists tr where
  mp h e he := by
    refine persists_of_stale (r.step_of_mem he) fun id hid => ?_
    obtain ⟨tr₁, tr₂, rfl, r₁, _⟩ := r.split he
    obtain ⟨tr₀, e₀, rfl, hid₀⟩ := stale_last r₁ hid
    exact (h tr₀ e₀ (e :: tr₂) id (by simp) hid₀ e List.mem_cons_self).left
  mpr h tr₁ e tr₂ id htr hid e' he' := by
    subst htr
    obtain ⟨r₁, hs, p⟩ := r.middle
    have hc : Machine.Along Persists tr₂ := fun e'' he'' => h e'' (by simp [he''])
    have hk : e.post.Kept fun _ => True :=
      (kept_of_run (r₁.snoc hs)).mono rfl rfl fun _ k => k.imp_right fun _ => trivial
    obtain ⟨tr₃, tr₄, rfl, p₁, _⟩ := p.split he'
    have hid' := stale_of_path p₁ (fun e'' he'' => hc e'' (by simp [he''])) hk hid
    have hs' := p.step_of_mem he'
    refine ⟨stale_of_path (p₁.snoc hs') (fun e'' he'' => hc e'' ?_) hk hid, fun msg ha hm => ?_⟩
    · exact List.append_cons tr₃ e' tr₄ ▸ List.mem_append_left _ he''
    · subst hm
      rw [ha] at hs'
      exact requested_of_stale hid' hs'

open Blocks Sample in
theorem not_stays_stale : ¬∀ tr s, (tasks Blocks.library).Run tr s → Instance.StaysStale tr := by
  intro h
  obtain ⟨s, hs, hx⟩ := Option.any_eq_true _ _ |>.mp twoBlocks_exec
  obtain ⟨hid, hx⟩ := of_decide_eq_true hx
  obtain ⟨s₁, hs₁, hx⟩ := Option.any_eq_true _ _ |>.mp hx
  obtain ⟨s₂, hs₂, hx⟩ := Option.any_eq_true _ _ |>.mp hx
  have r := Machine.Run.of_exec (M := tasks Blocks.library) rfl hs
  obtain ⟨tr₀, e₀, htr, hid⟩ := Instance.stale_last r hid
  have r₂ := (r.snoc hs₁).snoc hs₂
  rw [htr, List.append_assoc, List.append_assoc] at r₂
  have hr : s₂.cells = _ :=
    (h _ s₂ r₂ tr₀ e₀ _ 0 rfl hid ⟨s₁, request, s₂⟩ (by simp)).right _ rfl rfl
  have hx := of_decide_eq_true hx
  rw [hr, BitcoinCoreSv2.send, List.getLast?_concat] at hx
  exact absurd hx (by decide)

open Blocks Sample in
theorem stays_stale_iff_sample : ∃ tr s, (tasks Blocks.library).Run tr s ∧
    s.cells.staleTemplateIds = [0] ∧ Instance.StaysStale tr := by
  obtain ⟨s, hs, h⟩ := Option.any_eq_true _ _ |>.mp oneBlock_exec.left
  obtain ⟨_, hn, h⟩ := of_decide_eq_true h
  obtain ⟨s₁, hs₁, h⟩ := Option.any_eq_true _ _ |>.mp h
  obtain ⟨s₂, hs₂, h⟩ := Option.any_eq_true _ _ |>.mp h
  have r := ((Machine.Run.of_exec (M := tasks Blocks.library) rfl hs).snoc hs₁).snoc hs₂
  refine ⟨_, s₂, r, of_decide_eq_true h, (stays_stale_iff r).mpr ?_⟩
  rw [Machine.Along.snoc, Machine.Along.snoc]
  refine ⟨⟨fun e he i ids _ _ => ?_, fun i ids _ _ => ?_⟩, fun i ids ha => ?_⟩
  · rw [(oneBlock_exec.right e he).left]
    exact List.nil_subset _
  · rw [hn]
    exact List.nil_subset _
  · cases ha

end BitcoinCore
