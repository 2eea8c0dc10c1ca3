import StratumApps.BitcoinCore.Generations

open Sv2 Handler

namespace BitcoinCore

variable {L : Library} {hash : U256} {id : TemplateId} {ms ms' : List TemplateDistribution}

-- The chain tip that a template of the node builds on, as far as its header can be read.
def BlockTemplateIpcClient.prevHash? (L : Library) (client : BlockTemplateIpcClient) : Option U256 :=
  (client.getBlockHeader.toOption.bind fun bytes => (L.deserializeHeader bytes).toOption).map
    (·.prevBlockhash)

-- What the messages tell of chain tips.
inductive Notice
  | future (t : TemplateId)
  | prevHash (t : TemplateId) (hash : U256)
  deriving DecidableEq

def notice : TemplateDistribution → Option Notice
  | .newTemplate m    => if m.futureTemplate then some (.future m.templateId) else none
  | .setNewPrevHash m => some (.prevHash m.templateId m.prevHash)
  | _                 => none

def notices (ms : List TemplateDistribution) : List Notice :=
  ms.filterMap notice

-- A tip is announced by a future template and by the prev hash that names it.
def announcement (t : TemplateId × U256) : List Notice :=
  [.future t.1, .prevHash t.1 t.2]

def Complete (ms : List TemplateDistribution) : Prop :=
  ∃ ts : List (TemplateId × U256), notices ms = ts.flatMap announcement

-- Nothing but announcements have been made, and that of the tip was the last.
def Announces (ms : List TemplateDistribution) (hash : U256) : Prop :=
  ∃ (ts : List (TemplateId × U256)) (t : TemplateId),
    notices ms = (ts ++ [(t, hash)]).flatMap announcement

theorem notices_append : notices (ms ++ ms') = notices ms ++ notices ms' :=
  List.filterMap_append

theorem notices_answers (h : ∀ m ∈ ms', m.isAnnouncement = false) : notices (ms ++ ms') = notices ms := by
  have hn : notices ms' = [] := by
    refine List.filterMap_eq_nil_iff.mpr fun m hm => ?_
    have h := h m hm
    cases m <;> first | rfl | cases h
  rw [notices_append, hn, List.append_nil]

theorem Announces.complete (h : Announces ms hash) : Complete ms :=
  have ⟨ts, t, h⟩ := h
  ⟨ts ++ [(t, hash)], h⟩

theorem announces_of_eq (h : Announces ms hash) (he : notices ms' = notices ms) : Announces ms' hash := by
  rw [Announces, he]
  exact h

theorem TemplateData.getNewTemplateMessage_notice {t : TemplateData} {future : Bool} {m : NewTemplate}
    (h : t.getNewTemplateMessage L future = .ok m) :
    m.templateId = t.templateId ∧ m.futureTemplate = future := by
  simp only [getNewTemplateMessage, bind_eq_ok, pure_eq_ok] at h
  obtain ⟨_, _, _, _, _, _, _, _, _, _, _, _, _, _, rfl⟩ := h
  exact ⟨rfl, rfl⟩

theorem BitcoinCoreSv2.fetchTemplateData_prevHash {s : BitcoinCoreSv2} {t : TemplateData}
    {client : BlockTemplateIpcClient} (h : s.fetchTemplateData L client = .ok t) :
    client.prevHash? L = some t.getPrevHash := by
  simp only [fetchTemplateData, bind_eq_ok, ofExcept_eq_ok, pure_eq_ok] at h
  obtain ⟨bytes, hb, header, hh, _, _, _, _, _, _, rfl⟩ := h
  rw [BlockTemplateIpcClient.prevHash?, toOption_eq_some.mpr hb, Option.bind_some,
    toOption_eq_some.mpr hh]
  rfl

-- The instance starts by announcing the tip of its first template, or does not start.
theorem BitcoinCoreSv2.run_cases (s : BitcoinCoreSv2) (client : BlockTemplateIpcClient) :
    (s.run L client).globalCancellationToken = true ∧ (s.run L client).monitorsTemplates = false ∨
    ∃ (t : TemplateData) (m : NewTemplate), client.prevHash? L = some t.getPrevHash ∧
      notice (.newTemplate m) = some (.future t.templateId) ∧
      (s.run L client).monitorsTemplates = true ∧
      (s.run L client).currentPrevHash = some t.getPrevHash ∧
      (s.run L client).outgoingMessages =
        s.outgoingMessages ++ [.newTemplate m, .setNewPrevHash (t.getSetNewPrevHashMessage L)] := by
  rw [run]
  split
  case h_1 => exact .inl ⟨rfl, rfl⟩
  case h_2 t ht =>
    split
    case h_1 => exact .inl ⟨rfl, rfl⟩
    case h_2 m hm =>
      obtain ⟨hi, hf⟩ := TemplateData.getNewTemplateMessage_notice hm
      have hn : notice (.newTemplate m) = some (.future t.templateId) := by
        rw [notice, hf, hi]
        rfl
      exact .inr ⟨t, m, fetchTemplateData_prevHash ht, hn, rfl, rfl, rfl⟩

def Phase.request? : Phase → Option (Template × UInt32)
  | .waiting base n => some (base, n)
  | _               => none

theorem Phase.request?_eq_some {p : Phase} {base : Template} {n : UInt32}
    (h : p.request? = some (base, n)) : p = .waiting base n := by
  cases p <;> cases h
  rfl

namespace Instance

variable {s s' : Instance} {a : Action} {i : ℕ} {p p' : Phase} {T template base : Template}
variable {t : TemplateData} {message : NewTemplate} {n : UInt32}
variable {tr : List (Machine.Event Instance Action)}

-- A request for what follows on a template is there to tell of the next tip, so it should follow on a
-- template for the tip that was announced last.
def FollowsTip (L : Library) (s : Instance) : Prop :=
  ∀ (i : ℕ) base n, s.monitors[i]? = some (.waiting base n) → s.Survives (.waiting base n) →
    ∃ hash, base.ipcClient.prevHash? L = some hash ∧ Announces s.cells.outgoingMessages hash

-- New constraints find no monitor at work, and the node builds on the tip that was announced last.
def SameTip (L : Library) (s : Instance) : Action → Prop
  | .coinbaseOutputConstraints client => s.Settled (.coinbaseOutputConstraints client) ∧
    ∃ hash, client.prevHash? L = some hash ∧ s.cells.currentPrevHash = some hash ∧
      Announces s.cells.outgoingMessages hash
  | _                                 => True

theorem SameTip.settled (h : s.SameTip L a) : s.Settled a := by
  cases a with
  | coinbaseOutputConstraints => exact h.left
  | run | start | waitNext | fetch | send | wake | fail | constraintsFail | requestTransactionData
  | expire | cancel => trivial

-- The current template is one for the tip that the instance knows.
structure Tip (L : Library) (s : Instance) (T : Template) (hash : U256) : Prop where
  current         : s.currentTemplateIpcClient = some T
  prevHash        : T.ipcClient.prevHash? L = some hash
  currentPrevHash : s.cells.currentPrevHash = some hash

theorem Tip.of_same (h : s.Tip L T hash)
    (hc : s'.currentTemplateIpcClient = s.currentTemplateIpcClient)
    (hp : s'.cells.currentPrevHash = s.cells.currentPrevHash) : s'.Tip L T hash where
  current         := hc.trans h.current
  prevHash        := h.prevHash
  currentPrevHash := hp.trans h.currentPrevHash

-- What the monitor that goes on knows of the tip, at each of the places where it waits.
def Tracks (L : Library) (s : Instance) : Phase → Prop
  | .starting           =>
    ∃ T hash, s.Tip L T hash ∧ Announces s.cells.outgoingMessages hash
  | .waiting base _     => ∃ hash, s.Tip L base hash ∧ Announces s.cells.outgoingMessages hash
  | .fetching T _       => s.currentTemplateIpcClient = some T ∧
    ∃ hash, s.cells.currentPrevHash = some hash ∧ Announces s.cells.outgoingMessages hash
  | .announcing T t m   => s.Tip L T t.getPrevHash ∧ Complete s.cells.outgoingMessages ∧
    notice (.newTemplate m) = some (.future t.templateId)
  | .activating t       => ∃ T ts, s.Tip L T t.getPrevHash ∧
    notices s.cells.outgoingMessages = List.flatMap announcement ts ++ [.future t.templateId]
  | .sleeping T t       => s.Tip L T t.getPrevHash ∧ Announces s.cells.outgoingMessages t.getPrevHash
  | .updating T t m     => s.Tip L T t.getPrevHash ∧
    Announces s.cells.outgoingMessages t.getPrevHash ∧ notice (.newTemplate m) = none
  | .exited             => True

-- The monitor comes to a place where it knows what it should, or it has come to its end.
def Tracking (L : Library) (s : Instance) (i : ℕ) (s' : Instance) : Prop :=
  ∃ p', s'.monitors = s.monitors.set i p' ∧ (s'.cancelled = false → s'.Survives p' → s'.Tracks L p')

namespace Tracking

theorem exit (hm : s'.monitors = s.monitors.set i .exited) : Tracking L s i s' :=
  ⟨.exited, hm, fun _ _ => trivial⟩

theorem failWith {ε : Type} {s₁ : Instance} (e : Fault ε) (hm : s₁.monitors = s.monitors) :
    Tracking L s i (s₁.failWith i e) := by
  cases e <;> exact exit (congrArg (List.set · i _) hm)

theorem set {s₁ : Instance} (hm : s₁.monitors = s.monitors) (ht : (s₁.setMonitor i p').Tracks L p') :
    Tracking L s i (s₁.setMonitor i p') :=
  ⟨p', congrArg (List.set · i _) hm, fun _ _ => ht⟩

theorem newWaitNextRequest {s₁ : Instance} (hm : s₁.monitors = s.monitors) (hT : s₁.Tip L T hash)
    (ha : Announces s₁.cells.outgoingMessages hash) : Tracking L s i (s₁.newWaitNextRequest i) := by
  rw [Instance.newWaitNextRequest.eq_def]
  split
  case h_1 e _ => exact failWith e hm
  case h_2 base hb =>
    cases hT.current.symm.trans (current_of_waitNextRequest hb)
    exact ⟨_, congrArg (List.set · i _) hm, fun _ _ => ⟨hash, hT.of_same rfl rfl, ha⟩⟩

theorem onWaitNext {reply : Reply} (h : s.Tracks L (.waiting base n)) :
    Tracking L s i (s.onWaitNext i base n reply) := by
  obtain ⟨hash, hT, ha⟩ := h
  rw [Instance.onWaitNext.eq_def]
  split
  case h_1 => exact exit rfl
  case h_2 =>
    dsimp only
    split
    case isTrue => exact exit rfl
    case isFalse =>
      cases reply with
      | timeout          => exact newWaitNextRequest rfl (hT.of_same rfl rfl) ha
      | invalid | failed => exact exit rfl
      | template client  => exact set rfl ⟨rfl, hash, hT.currentPrevHash, ha⟩

theorem onTemplateData (hc : s.currentTemplateIpcClient = some template)
    (ht : template.ipcClient.prevHash? L = some t.getPrevHash)
    (h : ∃ hash, s.cells.currentPrevHash = some hash ∧ Announces s.cells.outgoingMessages hash) :
    Tracking L s i (s.onTemplateData L i template t) := by
  obtain ⟨hash, hp, ha⟩ := h
  rw [Instance.onTemplateData.eq_def, hp]
  dsimp only
  split
  case isFalse he =>
    rw [ne_eq, not_not] at he
    exact set rfl ⟨⟨hc, ht, he ▸ hp⟩, he ▸ ha⟩
  case isTrue =>
    split
    case h_1 => exact failWith _ rfl
    case h_2 m hm =>
      obtain ⟨hi, hf⟩ := TemplateData.getNewTemplateMessage_notice hm
      have hn : notice (.newTemplate m) = some (.future t.templateId) := by
        rw [notice, hf, hi]
        rfl
      exact set rfl ⟨⟨hc, ht, rfl⟩, ha.complete, hn⟩

theorem onFetch (h : s.Tracks L (.fetching template id)) :
    Tracking L s i (s.onFetch L i template id) := by
  rw [Instance.onFetch.eq_def]
  split
  case h_1 => exact failWith _ rfl
  case h_2 t ht => exact onTemplateData h.left (BitcoinCoreSv2.fetchTemplateData_prevHash ht) h.right

theorem onWake (h : s.Tracks L (.sleeping template t)) :
    Tracking L s i (s.onWake L i template t) := by
  rw [Instance.onWake.eq_def]
  split
  case h_1 => exact failWith _ rfl
  case h_2 m hm =>
    obtain ⟨_, hf⟩ := TemplateData.getNewTemplateMessage_notice hm
    have hn : notice (.newTemplate m) = none := by
      rw [notice, hf]
      rfl
    obtain ⟨hT, ha⟩ := h
    exact set rfl ⟨hT.of_same rfl rfl, ha, hn⟩

theorem onSend (hp : s.Tracks L p) (h : s.onSend L i p = some s') : Tracking L s i s' := by
  cases p with
  | announcing T t m =>
    cases h
    obtain ⟨hT, ⟨ts, hc⟩, hn⟩ := hp
    refine set rfl ⟨T, ts, hT.of_same rfl rfl, ?_⟩
    have hs : notices [.newTemplate m] = [.future t.templateId] := by simp [notices, hn]
    exact notices_append.trans (congrArg₂ _ hc hs)
  | activating t =>
    cases h
    obtain ⟨T, ts, hT, hc⟩ := hp
    refine newWaitNextRequest rfl (hT.of_same rfl rfl) ⟨ts, t.templateId, ?_⟩
    refine notices_append.trans ?_
    rw [hc, List.flatMap_append, List.append_assoc]
    rfl
  | updating T t m =>
    cases h
    obtain ⟨hT, ha, hn⟩ := hp
    refine newWaitNextRequest rfl (hT.of_same rfl rfl) (announces_of_eq ha ?_)
    have hs : notices [.newTemplate m] = [] := by simp [notices, hn]
    exact notices_append.trans ((congrArg _ hs).trans (List.append_nil _))
  | starting | waiting | fetching | sleeping | exited => cases h

theorem onFail (h : s.onFail i p = some s') : Tracking L s i s' := by
  cases p with
  | starting | announcing | activating | updating =>
    cases h
    exact exit rfl
  | waiting | fetching | sleeping | exited => cases h

theorem progress (hp : s.Tracks L p) (h : s.Progress L i p s') : Tracking L s i s' := by
  cases h with
  | start =>
    obtain ⟨T, hash, hT, ha⟩ := hp
    exact newWaitNextRequest rfl hT ha
  | waitNext             => exact onWaitNext hp
  | fetch                => exact onFetch hp
  | wake                 => exact onWake hp
  | send h               => exact onSend hp h
  | fail h               => exact onFail h

end Tracking

section Progress

theorem failWith_cells {ε : Type} (e : Fault ε) : (s.failWith i e).cells.currentPrevHash =
    s.cells.currentPrevHash := by
  cases e <;> rfl

theorem newWaitNextRequest_cells {s : Instance} : (s.newWaitNextRequest i).cells.currentPrevHash =
    s.cells.currentPrevHash := by
  rw [newWaitNextRequest.eq_def]
  split
  case h_1 e _ => exact failWith_cells e
  case h_2     => rfl

theorem onWaitNext_cells {reply : Reply} : (s.onWaitNext i base n reply).cells.currentPrevHash =
    s.cells.currentPrevHash := by
  rw [onWaitNext.eq_def]
  split
  case h_1 => rfl
  case h_2 =>
    dsimp only
    split
    case isTrue => rfl
    case isFalse =>
      cases reply with
      | timeout                     => exact newWaitNextRequest_cells
      | invalid | failed | template => rfl

theorem onTemplateData_known (h : s.cells.currentPrevHash ≠ none) :
    (s.onTemplateData L i template t).cells.currentPrevHash ≠ none := by
  rw [onTemplateData.eq_def]
  split
  case h_1 => exact h
  case h_2 =>
    split
    case isFalse => exact h
    case isTrue =>
      dsimp only
      split
      case h_1 =>
        rw [failWith_cells]
        exact Option.some_ne_none _
      case h_2 => exact Option.some_ne_none _

-- A tip that is known is replaced, but never forgotten.
theorem Progress.known (h : s.Progress L i p s') (hk : s.cells.currentPrevHash ≠ none) :
    s'.cells.currentPrevHash ≠ none := by
  cases h with
  | start    => rwa [newWaitNextRequest_cells]
  | waitNext => rwa [onWaitNext_cells]
  | fetch    =>
    rw [onFetch.eq_def]
    split
    case h_1 => rwa [failWith_cells]
    case h_2 => exact onTemplateData_known hk
  | wake     =>
    rw [onWake.eq_def]
    split
    case h_1 => rwa [failWith_cells]
    case h_2 => exact hk
  | send h   =>
    cases p with
    | announcing =>
      cases h
      exact hk
    | activating | updating =>
      cases h
      rwa [newWaitNextRequest_cells]
    | starting | waiting | fetching | sleeping | exited => cases h
  | fail h   =>
    cases p with
    | starting | announcing | activating | updating =>
      cases h
      exact hk
    | waiting | fetching | sleeping | exited => cases h

-- A monitor that is about to end leaves everything as it is, or ends everything.
theorem Progress.idle (h : s.Progress L i p s') (hp : ¬s.Survives p) : s'.cancelled = true ∨
    s'.cells = s.cells ∧ s'.currentTemplateIpcClient = s.currentTemplateIpcClient := by
  cases h with
  | waitNext base n reply =>
    rw [onWaitNext.eq_def]
    split
    case h_1 => exact .inl rfl
    case h_2 =>
      dsimp only
      split
      case isTrue    => exact .inr ⟨rfl, rfl⟩
      case isFalse h =>
        rw [not_or, Bool.not_eq_true, ne_eq, not_not] at h
        exact absurd ⟨h.left, h.right.symm⟩ hp
  | start | fetch | wake => exact absurd trivial hp
  | send h =>
    cases p with
    | announcing | activating | updating                => exact absurd trivial hp
    | starting | waiting | fetching | sleeping | exited => cases h
  | fail h =>
    cases p with
    | starting | announcing | activating | updating => exact absurd trivial hp
    | waiting | fetching | sleeping | exited        => cases h

end Progress

theorem Tracks.of_same (h : s.Tracks L p)
    (ht : s'.currentTemplateIpcClient = s.currentTemplateIpcClient)
    (hp : s'.cells.currentPrevHash = s.cells.currentPrevHash)
    (hn : notices s'.cells.outgoingMessages = notices s.cells.outgoingMessages) : s'.Tracks L p := by
  have hT {T : Template} {hash : U256} (h : s.Tip L T hash) : s'.Tip L T hash := h.of_same ht hp
  have ha {hash : U256} (h : Announces s.cells.outgoingMessages hash) :
      Announces s'.cells.outgoingMessages hash := announces_of_eq h hn
  cases p with
  | starting     =>
    obtain ⟨T, hash, h, h'⟩ := h
    exact ⟨T, hash, hT h, ha h'⟩
  | waiting      =>
    obtain ⟨hash, h, h'⟩ := h
    exact ⟨hash, hT h, ha h'⟩
  | fetching     =>
    obtain ⟨h, hash, h', h''⟩ := h
    exact ⟨ht.trans h, hash, hp.trans h', ha h''⟩
  | announcing   =>
    obtain ⟨h, ⟨ts, h'⟩, hm⟩ := h
    exact ⟨hT h, ⟨ts, hn.trans h'⟩, hm⟩
  | activating   =>
    obtain ⟨T, ts, h, h'⟩ := h
    exact ⟨T, ts, hT h, hn.trans h'⟩
  | sleeping     => exact ⟨hT h.left, ha h.right⟩
  | updating     => exact ⟨hT h.left, ha h.right.left, h.right.right⟩
  | exited       => trivial

-- The instance has told of nothing before it has a monitor. From then on it knows a tip, and the monitor
-- that goes on tracks it.
structure Consistent (L : Library) (s : Instance) : Prop where
  fresh   : s.monitors = [] → s.cancelled = false → notices s.cells.outgoingMessages = []
  started : s.monitors ≠ [] → s.cells.currentPrevHash ≠ none
  tracks  : s.cancelled = false → ∀ p ∈ s.monitors, s.Survives p → s.Tracks L p

namespace Consistent

theorem new : Consistent L .new where
  fresh _ _     := rfl
  started h     := absurd rfl h
  tracks _ _ hp := nomatch hp

-- The monitors that do not go on do not get in the way of the one that does.
theorem progress (h : s.Consistent L) (hS : s.Single) (hp : s.monitors[i]? = some p)
    (hg : s.Progress L i p s') : s'.Consistent L := by
  have ⟨p', hm⟩ := hg.moves
  have hi : i < s.monitors.length := (List.getElem?_eq_some_iff.mp hp).choose
  have hne : s.monitors ≠ [] := List.ne_nil_of_length_pos (Nat.zero_lt_of_lt hi)
  refine ⟨fun hn => ?_, fun _ => hg.known (h.started hne), fun hc q hq hs => ?_⟩
  · rw [hm.monitors, List.set_eq_nil_iff] at hn
    exact absurd hn hne
  · have hc₀ : s.cancelled = false := by
      cases he : s.cancelled with
      | false => rfl
      | true  => exact absurd (hm.cancelled he) (by simp [hc])
    obtain ⟨j, hj⟩ := List.getElem?_of_mem hq
    rw [hm.monitors, List.getElem?_set] at hj
    split at hj
    case isTrue =>
      cases hj
      have hs₀ : s.Survives p := hm.survives hs
      have ⟨p'', hm', ht⟩ := Tracking.progress (h.tracks hc₀ p (List.mem_of_getElem? hp) hs₀) hg
      have he : (s.monitors.set i p')[i]? = (s.monitors.set i p'')[i]? := by rw [← hm.monitors, hm']
      rw [List.getElem?_set_self hi, List.getElem?_set_self hi, Option.some_inj] at he
      exact he ▸ ht hc (he ▸ hs)
    case isFalse hij =>
      have hsq : s.Survives q := by
        rw [Survives, hm.counter] at hs
        exact hs.of_cancelled hm.cancelled
      have hsp : ¬s.Survives p := fun hsp =>
        hij (Nat.succ_injective ((hS.last i p hp hsp).trans (hS.last j q hj hsq).symm))
      obtain hx | ⟨he, ht⟩ := hg.idle hsp
      · exact absurd hx (by simp [hc])
      · have hq₀ := h.tracks hc₀ q (List.mem_of_getElem? hj) hsq
        exact hq₀.of_same ht (by rw [he]) (by rw [he])

theorem setCells {cells : BitcoinCoreSv2} (h : s.Consistent L) (ha : s.cells.Answers cells) :
    (s.setCells cells).Consistent L := by
  have hn : notices cells.outgoingMessages = notices s.cells.outgoingMessages := by
    obtain ⟨ms, hs, hm⟩ := ha.sent
    rw [hs, notices_answers hm]
  have hc (hc : (s.setCells cells).cancelled = false) : s.cancelled = false := by
    cases he : s.cancelled with
    | false => rfl
    | true  => exact absurd (ha.cancelled he) (by rw [Bool.not_eq_true]; exact hc)
  refine ⟨fun hm hc' => hn.trans (h.fresh hm (hc hc')), fun hm => ?_, fun hc' p hp hs => ?_⟩
  · exact (congrArg (· ≠ none) ha.currentPrevHash).mpr (h.started hm)
  · have hs₀ : s.Survives p := hs.of_cancelled ha.cancelled
    exact (h.tracks (hc hc') p hp hs₀).of_same rfl ha.currentPrevHash hn

theorem handleCoinbaseOutputConstraints {client : BlockTemplateIpcClient}
    (ha : s.SameTip L (.coinbaseOutputConstraints client)) :
    (s.handleCoinbaseOutputConstraints client).Consistent L := by
  obtain ⟨hS, hash, hc, hp, ha⟩ := ha
  refine ⟨fun hm => ?_, fun _ hn => ?_, fun _ p hm hs => ?_⟩
  · exact absurd hm (List.append_ne_nil_of_right_ne_nil _ (List.cons_ne_nil _ _))
  · cases hp.symm.trans hn
  · obtain hm | hm := List.mem_append.mp hm
    · exact absurd hs (hS p hm)
    · rw [List.mem_singleton.mp hm]
      exact ⟨_, hash, ⟨rfl, hc, hp⟩, ha⟩

theorem run {client : BlockTemplateIpcClient} (h : s.Consistent L)
    (hp : s.cells.currentPrevHash = none) (hc : s.cancelled = false) : (s.run L client).Consistent L := by
  have hm : s.monitors = [] := by
    by_contra hm
    exact h.started hm hp
  obtain ⟨hx, hf⟩ | ⟨t, m, ht, hn, hx, hk, hs⟩ := s.cells.run_cases (L := L) client
  · have hc' : (s.run L client).cancelled = true := hx
    have hne : (s.run L client).cancelled ≠ false := ne_of_eq_of_ne hc' (by decide)
    refine ⟨fun _ h => absurd h hne, fun hm => ?_, fun h => absurd h hne⟩
    rw [Instance.run, hf] at hm
    exact absurd rfl hm
  · have hm' : (s.run L client).monitors = [.starting] := if_pos hx
    refine ⟨fun h => ?_, fun _ h => ?_, fun _ p hp _ => ?_⟩
    · cases hm'.symm.trans h
    · cases hk.symm.trans h
    · rw [hm', List.mem_singleton] at hp
      rw [hp]
      refine ⟨_, t.getPrevHash, ⟨rfl, ht, hk⟩, [], t.templateId, ?_⟩
      have hs : (s.run L client).cells.outgoingMessages = s.cells.outgoingMessages ++
        [.newTemplate m, .setNewPrevHash (t.getSetNewPrevHashMessage L)] := hs
      rw [hs, notices_append, h.fresh hm hc]
      simp only [notices, List.filterMap_cons, hn]
      rfl

theorem step (h : s.Consistent L) (hS : s.Single) (ha : s.SameTip L a) (hs : s.step L a = some s') :
    s'.Consistent L := by
  obtain ⟨client, _, hp, hc, rfl⟩ | ⟨i, p, hp, hg⟩ | ⟨client, rfl, _, rfl⟩ | ⟨cells, rfl, hc⟩ :=
    step_cases hs
  · exact h.run hp hc
  · exact h.progress hS hp hg
  · exact handleCoinbaseOutputConstraints ha
  · exact h.setCells hc

theorem followsTip (h : s.Consistent L) : s.FollowsTip L := by
  intro i base n hi hs
  obtain ⟨hash, hT, ha⟩ := h.tracks hs.left _ (List.mem_of_getElem? hi) hs
  exact ⟨hash, hT.prevHash, ha⟩

end Consistent

-- In every run, as long as new constraints find no monitor at work and come with a template for the tip
-- announced last, the requests of the monitors follow on the tip announced last.
theorem followsTip_of_run (r : (tasks L).Run tr s) (ha : Machine.Along (SameTip L) tr) :
    s.FollowsTip L := by
  have hi : s.Single ∧ s.Consistent L := by
    refine r.invariant (I := fun s => s.Single ∧ s.Consistent L) (fun s hs => ?_)
      (fun s a s' h ha hs => ⟨h.left.step ha.settled hs, h.right.step h.left ha hs⟩) ha
    rw [hs]
    exact ⟨.new, .new⟩
  exact hi.right.followsTip

end Instance

-- A block arrives before the new constraints do. The second monitor waits for what follows on a template
-- for that block, of which nothing has been told.
namespace Overtaken

open Sample Overlap

def nextHeaderBytes : Bytes :=
  bytesOf 2 4 ++ bytesOf 6 32 ++ bytesOf 0 32 ++ bytesOf 8 4 ++ bytesOf 5 4 ++ bytesOf 0 4

def library : Library where
  __ := Sample.library
  deserializeHeader bytes :=
    if bytes = nextHeaderBytes then
      .ok { header with prevBlockhash := 6, time := 8 }
    else
      Sample.library.deserializeHeader bytes

def next : BlockTemplateIpcClient where
  __ := client
  getBlockHeader := .ok nextHeaderBytes

def overtaken : List Instance.Action :=
  [.run client, .start 0, .coinbaseOutputConstraints next, .start 1]

theorem overtaken_exec : ((tasks library).exec .new overtaken).any
      (fun s => s.cancelled = false ∧ (s.monitors[1]?.bind (·.request?)).any (fun r =>
        r.2 = s.coinbaseOutputConstraintsCounter ∧ r.1.ipcClient.prevHash? library = some 6) ∧
        notices s.cells.outgoingMessages = [.future 0, .prevHash 0 3]) ∧
    ((tasks Sample.library).exec .new handover).any fun s =>
      s.cells.currentPrevHash = some 3 ∧ client.prevHash? Sample.library = some 3 ∧
        notices s.cells.outgoingMessages = [.future 0, .prevHash 0 3] ∧ s.cells.monitorsMessages ∧
        s.monitors.length = 1 ∧
        ∀ p ∈ s.monitors, ¬p.Survives (s.coinbaseOutputConstraintsCounter + 1) s.cancelled := by
  decide +kernel

theorem handover_sameTip : Machine.Along (Instance.SameTip Sample.library)
    ((tasks Sample.library).trace .new handover) := by
  intro e he
  have ha := Machine.act_of_mem_trace he
  simp only [handover, List.mem_cons, List.not_mem_nil, or_false] at ha
  obtain ha | ha := ha <;> rw [ha] <;> trivial

end Overtaken

open Overtaken in
theorem not_followsTip : ¬∀ tr s, (tasks library).Run tr s → s.FollowsTip library := by
  intro h
  obtain ⟨s, hs, hc⟩ := Option.any_eq_true _ _ |>.mp overtaken_exec.left
  obtain ⟨hx, hr, hn⟩ := of_decide_eq_true hc
  obtain ⟨⟨base, n⟩, hr, hb⟩ := Option.any_eq_true _ _ |>.mp hr
  obtain ⟨hn', hb⟩ := of_decide_eq_true hb
  obtain ⟨p, hp, hr⟩ := Option.bind_eq_some_iff.mp hr
  cases Phase.request?_eq_some hr
  obtain ⟨hash, hb', ts, t, ha⟩ := h _ s (.of_exec rfl hs) 1 base n hp ⟨hx, hn'⟩
  cases hb.symm.trans hb'
  have hl := congrArg List.getLast? (hn.symm.trans ha)
  simp [announcement] at hl

open Overtaken Overlap Sample in
theorem followsTip_of_run_sample : ∃ tr s, (tasks Sample.library).Run tr s ∧
    s.monitors.length = 2 ∧ s.FollowsTip Sample.library := by
  obtain ⟨s, hs, hc⟩ := Option.any_eq_true _ _ |>.mp overtaken_exec.right
  obtain ⟨hk, hp, hn, hm, hl, hS⟩ := of_decide_eq_true hc
  have hs' : (tasks Sample.library).step s (.coinbaseOutputConstraints client) =
      some (s.handleCoinbaseOutputConstraints client) := if_pos hm
  have r := (Machine.Run.of_exec (M := tasks Sample.library) rfl hs).snoc hs'
  have ha : s.SameTip Sample.library (.coinbaseOutputConstraints client) :=
    ⟨hS, 3, hp, hk, [], 0, hn⟩
  have ha := Machine.Along.snoc (C := Instance.SameTip Sample.library)
    (e := ⟨s, Instance.Action.coinbaseOutputConstraints client, s.handleCoinbaseOutputConstraints client⟩)
    |>.mpr ⟨handover_sameTip, ha⟩
  have hl : (s.handleCoinbaseOutputConstraints client).monitors.length = 2 := by
    rw [Instance.handleCoinbaseOutputConstraints, List.length_append, hl]
    rfl
  exact ⟨_, _, r, hl, Instance.followsTip_of_run r ha⟩

end BitcoinCore
