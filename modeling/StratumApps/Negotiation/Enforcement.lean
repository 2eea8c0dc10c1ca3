import StratumApps.Pool.Extensions
import StratumApps.JobDeclaratorClient.System

open Sv2 Handler

namespace Negotiation

open Pool (DownstreamTask DownstreamFrame ExtensionsConfig)

section Pool

variable {cfg : ExtensionsConfig} {t t' : DownstreamTask}
variable {tr : List (Machine.Event DownstreamTask DownstreamFrame)}

-- No mining message of a downstream goes on to the manager before all required extensions have been
-- negotiated.
def Guards (cfg : ExtensionsConfig) (tr : List (Machine.Event DownstreamTask DownstreamFrame)) :
    Prop :=
  ∀ e ∈ tr, e.post.forwarded ≠ e.pre.forwarded →
    ∀ x ∈ cfg.requiredExtensions, x ∈ e.pre.negotiatedExtensions

def AsksForAll (cfg : ExtensionsConfig) : DownstreamFrame → Prop
  | .extensions (.requestExtensions m) =>
    ∀ x ∈ cfg.requiredExtensions, x ∈ m.requestedExtensions
  | _ => False

-- The downstream has asked for all required extensions, and the pool supports them.
def Asked (cfg : ExtensionsConfig) (tr : List (Machine.Event DownstreamTask DownstreamFrame)) :
    Prop :=
  cfg.requiredExtensions = [] ∨
    (∀ x ∈ cfg.requiredExtensions, x ∈ cfg.supportedExtensions) ∧ ∃ e ∈ tr, AsksForAll cfg e.act

-- The downstream sends mining messages only after that.
def AsksFirst (cfg : ExtensionsConfig) :
    List (Machine.Event DownstreamTask DownstreamFrame) → Prop :=
  Machine.History fun tr e => ∀ m, e.act = .mining m → Asked cfg tr

theorem asked_snoc {e : Machine.Event DownstreamTask DownstreamFrame} :
    Asked cfg (tr ++ [e]) ↔ Asked cfg tr ∨
      (∀ x ∈ cfg.requiredExtensions, x ∈ cfg.supportedExtensions) ∧ AsksForAll cfg e.act := by
  simp only [Asked, List.mem_append, List.mem_singleton, or_and_right, exists_or, exists_eq_left,
    and_or_left, or_assoc]

theorem guards_snoc {e : Machine.Event DownstreamTask DownstreamFrame} :
    Guards cfg (tr ++ [e]) ↔ Guards cfg tr ∧ (e.post.forwarded ≠ e.pre.forwarded →
      ∀ x ∈ cfg.requiredExtensions, x ∈ e.pre.negotiatedExtensions) := by
  simp only [Guards, List.forall_mem_append, List.forall_mem_singleton]

-- What has been negotiated says whether the downstream has asked, as long as its task goes on.
def Answers (cfg : ExtensionsConfig) (tr : List (Machine.Event DownstreamTask DownstreamFrame))
    (t : DownstreamTask) : Prop :=
  t.error = none →
    ((∀ x ∈ cfg.requiredExtensions, x ∈ t.negotiatedExtensions) ↔ Asked cfg tr)

theorem answers_request {m : RequestExtensions} (h : Answers cfg tr t) (ht : t.error = none)
    (ht' : t' = t.handleRequestExtensions cfg m) :
    Answers cfg (tr ++ [⟨t, .extensions (.requestExtensions m), t'⟩]) t' := by
  intro he
  rw [asked_snoc]
  by_cases hm : DownstreamTask.missingRequired cfg m = []
  case neg =>
    rw [ht', DownstreamTask.handleRequestExtensions_eq_refuse hm] at he
    exact absurd he (DownstreamTask.refuse_error hm)
  case pos =>
    have hall := DownstreamTask.missingRequired_eq_nil.mp hm
    by_cases hs : DownstreamTask.supported cfg m = []
    case neg =>
      rw [ht', DownstreamTask.handleRequestExtensions_eq_accept hs hm,
        DownstreamTask.accept_negotiatedExtensions]
      constructor
      case mp =>
        exact fun h => .inr ⟨fun x hx => (DownstreamTask.mem_supported.mp (h x hx)).right, hall⟩
      case mpr =>
        rintro ((hr | ⟨hr, _⟩) | ⟨hr, _⟩) x hx
        · simp [hr] at hx
        · exact DownstreamTask.mem_supported.mpr ⟨hall x hx, hr x hx⟩
        · exact DownstreamTask.mem_supported.mpr ⟨hall x hx, hr x hx⟩
    case pos =>
      -- Nothing that the client asks for is supported, so the pool cannot require anything.
      have hr : DownstreamTask.handleRequestExtensions cfg t m = t.refuse cfg m := by
        simp [DownstreamTask.handleRequestExtensions, hs]
      rw [ht', hr, DownstreamTask.refuse_negotiatedExtensions, h ht]
      refine (or_iff_left_of_imp fun hreq => .inl ?_).symm
      refine List.eq_nil_iff_forall_not_mem.mpr fun x hx => ?_
      have hx' := DownstreamTask.mem_supported.mpr ⟨hall x hx, hreq.left x hx⟩
      simp [hs] at hx'

theorem answers_step {frame : DownstreamFrame} (h : Answers cfg tr t)
    (hst : t.step cfg frame = some t') : Answers cfg (tr ++ [⟨t, frame, t'⟩]) t' := by
  rw [DownstreamTask.step] at hst
  split at hst
  case h_2 => cases hst
  case h_1 ht =>
    cases hst
    intro he
    cases frame with
    | other    => simpa [asked_snoc, AsksForAll, DownstreamTask.handleDownstreamMessage] using h ht
    | mining m => simpa [asked_snoc, AsksForAll, DownstreamTask.handleDownstreamMessage] using h ht
    | extensions m =>
      cases m with
      | requestExtensions m        => exact answers_request h ht rfl he
      | requestExtensionsSuccess m => cases he
      | requestExtensionsError m   => cases he

theorem answers_run (r : (Pool.downstreamMachine cfg).Run tr t) : Answers cfg tr t := by
  obtain ⟨t₀, hi, p⟩ := r
  induction p with
  | nil =>
    intro _
    have hi : t₀ = .start := hi
    simp [hi, DownstreamTask.start, Asked, List.eq_nil_iff_forall_not_mem]
  | snoc _ hst ih => exact answers_step ih hst

theorem forwarded_ne {frame : DownstreamFrame} (hst : t.step cfg frame = some t') :
    t'.forwarded ≠ t.forwarded ↔ ∃ m, frame = .mining m := by
  rw [DownstreamTask.step] at hst
  split at hst
  case h_2 => cases hst
  case h_1 =>
    cases hst
    cases frame with
    | other        => simp [DownstreamTask.handleDownstreamMessage]
    | mining m     => simp [DownstreamTask.handleDownstreamMessage]
    | extensions m =>
      have hf : (t.handleDownstreamMessage cfg (.extensions m)).forwarded = t.forwarded := by
        cases m with
        | requestExtensions m        => exact DownstreamTask.handleRequestExtensions_forwarded
        | requestExtensionsSuccess m => rfl
        | requestExtensionsError m   => rfl
      simp [hf]

-- The pool guards a downstream exactly when the downstream asks first.
theorem guards_iff (r : (Pool.downstreamMachine cfg).Run tr t) :
    Guards cfg tr ↔ AsksFirst cfg tr := by
  obtain ⟨t₀, hi, p⟩ := r
  induction p with
  | nil => exact iff_of_true (by simp [Guards]) Machine.History.nil
  | @snoc tr t₁ t₂ frame p hst ih =>
    have hst : t₁.step cfg frame = some t₂ := hst
    rw [guards_snoc, AsksFirst, Machine.History.snoc]
    refine and_congr ih ?_
    rw [forwarded_ne hst, forall_exists_index]
    refine forall₂_congr fun m _ => answers_run ⟨t₀, hi, p⟩ ?_
    rw [DownstreamTask.step] at hst
    split at hst
    case h_1 h => exact h
    case h_2   => cases hst

end Pool

section Client

variable {C : StratumCore} {cfg : Jdc.Config} {s s' : Jdc.System C} {a : Jdc.Action}
variable {tr : List (Machine.Event (Jdc.System C) Jdc.Action)}

-- An answer of the server without an extension that the client requires.
def Lacks (cfg : Jdc.Config) : Extensions → Bool
  | .requestExtensionsSuccess m => cfg.requiredExtensions.any (!m.supportedExtensions.contains ·)
  | .requestExtensionsError m   => cfg.requiredExtensions.any (m.unsupportedExtensions.contains ·)
  | .requestExtensions _        => false

-- The server has given such an answer on the connection that the client has, which is another one
-- after each fallback.
def refused (cfg : Jdc.Config) : List (Machine.Event (Jdc.System C) Jdc.Action) → Bool :=
  List.foldl (fun b e => match e.act with
    | .extensionsMessage m => b || Lacks cfg m
    | .fallback _          => false
    | _                    => b) false

-- The client takes a mining message of the upstream or sends it one.
def Mines (e : Machine.Event (Jdc.System C) Jdc.Action) : Prop :=
  (∃ m, e.act = .poolMessage m) ∨ ∃ m, .upstream m ∈ e.post.sent.drop e.pre.sent.length

-- The client leaves such a connection alone.
def Leaves (cfg : Jdc.Config) : List (Machine.Event (Jdc.System C) Jdc.Action) → Prop :=
  Machine.History fun tr e => refused cfg tr → ¬Mines e

-- Such an answer is an error that the manager does not end for. Nothing else comes of it.
theorem lacks_step {m : Extensions} (h : Lacks cfg m) (hs : s.status = .running) :
    s.step cfg (.extensionsMessage m) = some s := by
  have hr : ∃ e : Jdc.JDCError, e.isCritical = false ∧
      s.manager.handleExtensionsMessageFromServer cfg m = .error (.err e) := by
    cases m with
    | requestExtensions m        => cases h
    | requestExtensionsSuccess m =>
      have hne : cfg.requiredExtensions.filter (!m.supportedExtensions.contains ·) ≠ [] := by
        simpa [Lacks, List.filter_eq_nil_iff] using h
      refine ⟨.requiredExtensionsNotSupported
        (cfg.requiredExtensions.filter (!m.supportedExtensions.contains ·)), rfl, ?_⟩
      rw [Jdc.ChannelManager.handleExtensionsMessageFromServer,
        Jdc.ChannelManager.handleRequestExtensionsSuccess]
      exact if_neg (by simpa using hne)
    | requestExtensionsError m   =>
      have hne : cfg.requiredExtensions.filter (m.unsupportedExtensions.contains ·) ≠ [] := by
        simpa [Lacks, List.filter_eq_nil_iff] using h
      refine ⟨.requiredExtensionsNotSupported
        (cfg.requiredExtensions.filter (m.unsupportedExtensions.contains ·)), rfl, ?_⟩
      rw [Jdc.ChannelManager.handleExtensionsMessageFromServer,
        Jdc.ChannelManager.handleRequestExtensionsError]
      exact if_pos (by simpa using hne)
  obtain ⟨e, hc, hr⟩ := hr
  rw [Jdc.System.step, hs]
  simp [Jdc.System.act, hr, Jdc.System.deliver, hc]

theorem leaves_singleton {e : Machine.Event (Jdc.System C) Jdc.Action} : Leaves cfg [e] := by
  refine Machine.History.singleton fun h => ?_
  cases h

-- What the client does next keeps to this, whatever it is, exactly when no answer on the connection
-- has been without an extension that the client requires.
theorem leaves_iff (hs : s.status = .running) (h : Leaves cfg tr) :
    (∀ a s', s.step cfg a = some s' → Leaves cfg (tr ++ [⟨s, a, s'⟩])) ↔ refused cfg tr = false := by
  constructor
  case mp =>
    intro hn
    rw [← Bool.not_eq_true]
    intro hr
    have m : Mining := .setTarget ⟨0, 0⟩
    have hst : s.step cfg (.poolMessage m) = some (s.act cfg (.poolMessage m)) := by
      rw [Jdc.System.step, hs]
    exact (Machine.History.snoc.mp (hn _ _ hst)).right hr (.inl ⟨m, rfl⟩)
  case mpr =>
    intro hr a s' _
    refine Machine.History.snoc.mpr ⟨h, fun hr' => ?_⟩
    rw [hr] at hr'
    cases hr'

end Client

-- Neither side enforces anything: what it does is right exactly as long as the other side is.
theorem enforced_iff (C : StratumCore) (client : Jdc.Config) (pool : ExtensionsConfig) :
    (∀ tr s, (Jdc.machine C client).Run tr s → s.status = .running → Leaves client tr →
      ((∀ a s', s.step client a = some s' → Leaves client (tr ++ [⟨s, a, s'⟩])) ↔
        refused client tr = false)) ∧
    ∀ tr t, (Pool.downstreamMachine pool).Run tr t → (Guards pool tr ↔ AsksFirst pool tr) :=
  ⟨fun _ _ _ => leaves_iff, fun _ _ => guards_iff⟩

-- Both sides require one extension.
namespace Required

def client : Jdc.Config :=
  Jdc.Sample.config [1] [1]

def server : ExtensionsConfig where
  supportedExtensions := [1]
  requiredExtensions  := [1]

def target : Mining :=
  .setTarget ⟨0, 0⟩

def answer (extensions : List UInt16) : Extensions :=
  .requestExtensionsSuccess ⟨0, extensions⟩

def request : DownstreamFrame :=
  .extensions (.requestExtensions ⟨0, [1]⟩)

end Required

section Sample

open Required

theorem lacks_nothing : Lacks client (answer []) = true ∧ Lacks client (answer [1]) = false := by
  decide +kernel

def initial : Jdc.System StratumCore.reference :=
  Jdc.Sample.start []

def negotiated : Jdc.System StratumCore.reference :=
  initial.act client (.extensionsMessage (answer [1]))

theorem negotiated_eq : negotiated.manager.negotiatedExtensions = [1] ∧
    negotiated.status = .running := by
  decide +kernel

def ready : DownstreamTask :=
  DownstreamTask.start.handleDownstreamMessage server request

theorem ready_eq : ready.error = none ∧ ready.forwarded = [] := by
  decide +kernel

-- The client goes on with a server that has none of its extensions, and the pool with a client that
-- has not asked for any.
theorem not_enforced :
    (¬∀ tr s, (Jdc.machine StratumCore.reference client).Run tr s → Leaves client tr) ∧
      ¬∀ tr t, (Pool.downstreamMachine server).Run tr t → Guards server tr := by
  constructor
  case left =>
    intro h
    have r := Machine.Run.init (M := Jdc.machine StratumCore.reference client) (s := initial)
      Jdc.Sample.start_init
    have hst : initial.step client (.extensionsMessage (answer [])) = some initial :=
      lacks_step lacks_nothing.left rfl
    have r := (r.snoc hst).snoc (a := .poolMessage target) rfl
    exact (Machine.History.snoc.mp (h _ _ r)).right lacks_nothing.left (.inl ⟨_, rfl⟩)
  case right =>
    intro h
    have r := Machine.Run.init (M := Pool.downstreamMachine server) (s := .start) rfl
    have hg := h _ _ (r.snoc (a := .mining target) rfl) _ List.mem_concat_self
    have hx := hg (List.cons_ne_nil _ _) 1 (List.mem_singleton_self _)
    exact List.not_mem_nil hx

theorem enforced_iff_sample :
    (∃ tr s, (Jdc.machine StratumCore.reference client).Run tr s ∧
      s.manager.negotiatedExtensions = [1] ∧
      ∀ a s', s.step client a = some s' → Leaves client (tr ++ [⟨s, a, s'⟩])) ∧
    ∃ tr t, (Pool.downstreamMachine server).Run tr t ∧ t.forwarded = [target] ∧ Guards server tr := by
  constructor
  case left =>
    have r : (Jdc.machine StratumCore.reference client).Run
        [⟨initial, .extensionsMessage (answer [1]), negotiated⟩] negotiated :=
      (Machine.Run.init Jdc.Sample.start_init).snoc rfl
    have h := (enforced_iff _ client server).left _ _ r negotiated_eq.right leaves_singleton
    exact ⟨_, _, r, negotiated_eq.left, h.mpr lacks_nothing.right⟩
  case right =>
    have r : (Pool.downstreamMachine server).Run [⟨.start, request, ready⟩] ready :=
      (Machine.Run.init rfl).snoc rfl
    have hst : ready.step server (.mining target) =
        some { ready with forwarded := ready.forwarded ++ [target] } := by
      rw [DownstreamTask.step, ready_eq.left]
      rfl
    have r := r.snoc hst
    refine ⟨_, _, r, ?_, ((enforced_iff StratumCore.reference client server).right _ _ r).mpr ?_⟩
    · rw [ready_eq.right]
      rfl
    · have hn : AsksFirst server [⟨.start, request, ready⟩] := by
        refine Machine.History.singleton fun m hm => ?_
        cases hm
      have ha : Asked server [⟨.start, request, ready⟩] :=
        .inr ⟨fun _ hx => hx, _, List.mem_singleton_self _, fun _ hx => hx⟩
      exact Machine.History.snoc.mpr ⟨hn, fun _ _ => ha⟩

end Sample

end Negotiation
