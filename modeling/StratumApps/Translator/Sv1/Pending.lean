import StratumApps.Lib.Deferral
import StratumApps.Translator.Sv1.Course

open Sv2 Handler StratumCore Deferral

namespace Translator.Sv1

namespace Sv1Server

variable (server : Sv1Server) (d : DownstreamId)

-- The targets of a miner that wait for the upstream.
def pendingOf : List Target :=
  (server.pendingTargetUpdates.filter (·.downstreamId = d)).map (·.newTarget)

-- What an operation has for a miner that is as good as sent.
def flightOf : ServerOp → List Target
  | .broadcast e           => (e.difficultyFor d).toList
  | .sendPending u         =>
    if u.downstreamId = d ∧ d ∈ server.downstreams then [u.newTarget] else []
  | .takePending d' t      =>
    if d'.all (· = d) ∧ d ∈ server.downstreams then (server.pendingOf d).filter (t ≤ ·) else []
  | .vardiff _ _ immediate => immediate.filterMap (·.difficultyFor d)
  | _                      => []

def flight (ops : List ServerOp) : List Target :=
  ops.flatMap (server.flightOf d)

end Sv1Server

def ServerOp.takes (d : DownstreamId) : ServerOp → Bool
  | .takePending d' _ => d'.all (· = d)
  | _                 => false

-- What waits for a miner, and will go on to do so.
def Sv1Server.held (server : Sv1Server) (d : DownstreamId) (ops : List ServerOp) : List Target :=
  if ops.any (·.takes d) then [] else server.pendingOf d

-- A new upstream target is for a miner if it is for the channel of the miner. In aggregated mode it is
-- for all.
def System.concerns (cfg : Config) (s : System) (m : SetTarget) (d : DownstreamId) : Bool :=
  if cfg.aggregateChannels then
    d ∈ s.server.downstreams
  else
    s.downstreamOfChannel m.channelId = some d

section Course

variable (C : Core) (cfg : Config) (d : DownstreamId)

def System.decides (s : System) : ServerOp → Option (Deferral.Event Target Target)
  | .vardiff ((d', h) :: _) _ _ =>
    if d' = d then
      (s.decision C cfg d h).map fun r => if r.2 then .now r.1 else .later r.1
    else
      none
  | _                           => none

-- The decisions about a miner, and the answers of the upstream to them.
def deferral (e : Machine.Event System Action) : Option (Deferral.Event Target Target) :=
  match e.act with
  | .serve                  => e.pre.todo.head?.bind (e.pre.decides C cfg d)
  | .upstream (.setTarget m) =>
    if e.pre.concerns cfg m d then some (.answer m.maximumTarget) else none
  | _                       => none

-- The upstream admits what is no harder than it asks for.
def admits (upstreamTarget target : Target) : Bool :=
  upstreamTarget ≤ target

def ServerOp.tells : ServerOp → Option Target
  | .broadcast e => e.difficultyFor d
  | _            => none

-- What a step queues for a miner alone.
def queues (e : Machine.Event System Action) : Option Target :=
  match e.act with
  | .serve => e.pre.todo.head?.bind (·.tells d)
  | _      => none

end Course

namespace System

variable {C : Core} {cfg : Config} {s s' : System} {d : DownstreamId} {a : Action} {op : ServerOp}
variable {ops : List ServerOp} {server : Sv1Server} {l : Ledger Target} {q : List Target}

theorem flight_cons : server.flight d (op :: ops) = server.flightOf d op ++ server.flight d ops :=
  rfl

theorem flight_append {ops' : List ServerOp} :
    server.flight d (ops ++ ops') = server.flight d ops ++ server.flight d ops' :=
  List.flatMap_append

theorem flight_broadcast {es : List Envelope} :
    server.flight d (es.map .broadcast) = es.filterMap (·.difficultyFor d) := by
  induction es with
  | nil          => rfl
  | cons e es ih =>
    rw [List.map_cons, flight_cons, ih, List.filterMap_cons, Sv1Server.flightOf]
    cases e.difficultyFor d <;> rfl

theorem flight_setUpstreamTarget {ds : List DownstreamId} {t : Target} :
    server.flight d (ds.map (.setUpstreamTarget · t) ++ ops) = server.flight d ops := by
  induction ds with
  | nil        => rfl
  | cons _ _ ih => exact ih

theorem held_setUpstreamTarget {ds : List DownstreamId} {t : Target} :
    server.held d (ds.map (.setUpstreamTarget · t) ++ ops) = server.held d ops := by
  induction ds with
  | nil         => rfl
  | cons _ _ ih => exact ih

-- What neither sends nor takes anything for a miner.
theorem flight_of_quiet (h : ∀ op ∈ ops, op.IsQuiet) :
    server.flight d ops = [] ∧ server.held d ops = server.pendingOf d := by
  induction ops with
  | nil            => exact ⟨rfl, rfl⟩
  | cons op ops ih =>
    obtain ⟨ho, hops⟩ := List.forall_mem_cons.mp h
    obtain ⟨hf, hh⟩ := ih hops
    cases op with
    | broadcast e =>
      rw [flight_cons, hf, Sv1Server.flightOf, ho d]
      exact ⟨rfl, hh⟩
    | setChannel d m | takeQueue d c | setProcessing d | handleQueued d c m | sendFirst c =>
      exact ⟨hf, hh⟩
    | _ => cases ho

theorem flight_sendPending {us : List PendingTargetUpdate} :
    server.flight d (us.map .sendPending) =
      if d ∈ server.downstreams then (us.filter (·.downstreamId = d)).map (·.newTarget) else [] := by
  induction us with
  | nil          => exact (ite_self []).symm
  | cons u us ih =>
    rw [List.map_cons, flight_cons, ih, Sv1Server.flightOf]
    by_cases hd : d ∈ server.downstreams
    case neg => simp [hd]
    case pos => by_cases hu : u.downstreamId = d <;> simp [hd, hu]

section Pending

variable {d' : Option DownstreamId} {t : Target}

-- Of the updates of a miner, a new upstream target for the miner takes all and lets those pass that it
-- admits. One for others takes none.
theorem applicable_filter : ((server.applicable d' t).filter (·.downstreamId = d)).map (·.newTarget) =
    if d'.all (· = d) then (server.pendingOf d).filter (t ≤ ·) else [] := by
  rw [Sv1Server.applicable, Sv1Server.pendingOf, List.filter_map, List.filter_filter,
    List.filter_filter]
  split
  case isTrue hd =>
    refine congrArg _ (List.filter_congr fun u _ => ?_)
    by_cases hu : u.downstreamId = d
    case pos => simp [hu, hd]
    case neg => simp [hu]
  case isFalse hd =>
    rw [List.map_eq_nil_iff, List.filter_eq_nil_iff]
    intro u _
    by_cases hu : u.downstreamId = d
    case pos => simp [hu, hd]
    case neg => simp [hu]

theorem takePending_pendingOf : (server.takePending d').pendingOf d =
    if d'.all (· = d) then [] else server.pendingOf d := by
  rw [Sv1Server.takePending, Sv1Server.pendingOf, Sv1Server.pendingOf, List.filter_filter]
  split
  case isTrue hd =>
    rw [List.map_eq_nil_iff, List.filter_eq_nil_iff]
    intro u _
    by_cases hu : u.downstreamId = d
    case pos => simp [hu, hd]
    case neg => simp [hu]
  case isFalse hd =>
    refine congrArg _ (List.filter_congr fun u _ => ?_)
    by_cases hu : u.downstreamId = d
    case pos => simp [hu, hd]
    case neg => simp [hu]

end Pending

theorem held_of_no_takes (h : ∀ op ∈ ops, op.takes d = false) :
    server.held d ops = server.pendingOf d := by
  rw [Sv1Server.held, if_neg]
  simpa using h

section Serve

theorem server_of_serve (h : s.step C cfg .serve = some s') (ht : s.todo = op :: ops) :
    s'.server = { s.server with pendingTargetUpdates := s.pendingAfter C cfg op } := by
  obtain ⟨_, rfl⟩ := serve_of_todo h ht
  exact exec_pending

-- Only the first `mining.set_difficulty` of a channel may end the server.
theorem plan_of_serve (hm : s.RoundsManned) (h : s.step C cfg .serve = some s')
    (ht : s.todo = op :: ops) : s'.plan = s.follow C cfg op ++ ops ∨
      s'.plan = [] ∧ ∃ c, op = .sendFirst c := by
  by_cases hr' : s'.status = .running
  case pos =>
    left
    rw [plan_of_running hr']
    obtain hn | ⟨_, _, _, ht₁, ht'⟩ | ⟨hn, _⟩ := todo_of_step h
    case inl      => exact absurd hr' hn
    case inr.inr  => exact absurd rfl hn
    case inr.inl  =>
      cases ht.symm.trans ht₁
      rw [ht', follow_todo]
  case neg =>
    refine .inr ⟨plan_of_stopped hr', ?_⟩
    by_contra hn
    obtain ⟨hr, rfl⟩ := serve_of_todo h ht
    refine hr' (exec_running hr (fun c hc => hn ⟨c, hc⟩) fun us all immediate ho ha => ?_)
    exact minTarget_isSome (s := { s with todo := ops }) (hm hr us all immediate (ht ▸ ho ▸ .head _) ha)

-- The targets that a miner is to be told are those that it has been told and those that are as good as
-- sent, and the others wait for the upstream.
structure Booked (d : DownstreamId) (l : Ledger Target) (q : List Target) (s : System) : Prop where
  passed  : l.passed.map (·.2) = q ++ s.server.flight d s.plan
  waiting : d ∈ s.server.downstreams → l.waiting.map (·.2) = s.server.held d s.plan
  absent  : s.objects.lookup d = none → l.waiting = []

theorem absent_of_step (h : s.step C cfg a = some s') (ho : s'.objects.lookup d = none) :
    s.objects.lookup d = none := by
  cases hs : s.objects.lookup d with
  | none   => rfl
  | some o =>
    have hn := lookup_isSome_of_step h (Option.isSome_iff_exists.mpr ⟨o, hs⟩)
    rw [ho] at hn
    cases hn

theorem Booked.serve {x : List Target} (hk : Booked d l q s) (h : s.step C cfg .serve = some s')
    (ht : s.todo = op :: ops) (hf : s.server.flight d (op :: ops) = x ++ s'.server.flight d s'.plan)
    (hh : s'.server.held d s'.plan = s.server.held d (op :: ops)) : Booked d l (q ++ x) s' := by
  obtain ⟨_, _, _, hr, _⟩ := serve_eq_some h
  have hp := hk.passed
  have hw := hk.waiting
  rw [plan_of_running hr, ht] at hp hw
  constructor
  case passed  => rw [hp, hf, List.append_assoc]
  case absent  => exact fun ho => hk.absent (absent_of_step h ho)
  case waiting =>
    intro hd
    rw [server_of_serve h ht] at hd
    exact (hw hd).trans hh.symm

-- What a miner has coming to it is the same after an operation, less what the operation tells it.
structure Advances (d : DownstreamId) (op : ServerOp) (ops : List ServerOp) (s s' : System) : Prop where
  flight : s.server.flight d (op :: ops) = (op.tells d).toList ++ s'.server.flight d s'.plan
  held   : s'.server.held d s'.plan = s.server.held d (op :: ops)

theorem server_of_kept (h : s.step C cfg .serve = some s') (ht : s.todo = op :: ops)
    (hp : s.pendingAfter C cfg op = s.server.pendingTargetUpdates) : s'.server = s.server := by
  rw [server_of_serve h ht, hp]

theorem advances_quiet (hm : s.RoundsManned) (hq : ∀ op' ∈ op :: ops, op'.IsQuiet)
    (h : s.step C cfg .serve = some s') (ht : s.todo = op :: ops) : Advances d op ops s s' := by
  obtain ⟨ho, hops⟩ := List.forall_mem_cons.mp hq
  have hp : ∀ op ∈ s'.plan, op.IsQuiet := by
    obtain hp | ⟨hp, _⟩ := plan_of_serve hm h ht
    case inl =>
      rw [hp]
      exact List.forall_mem_append.mpr ⟨follow_isQuiet ho, hops⟩
    case inr =>
      rw [hp]
      exact List.forall_mem_nil _
  have hs : s'.server = s.server := by
    refine server_of_kept h ht ?_
    cases op with
    | takePending d t | vardiff us all immediate => cases ho
    | _                                          => rfl
  have hn : op.tells d = none := by
    cases op with
    | broadcast e => exact ho d
    | _           => rfl
  constructor
  case flight => rw [(flight_of_quiet hq).left, (flight_of_quiet hp).left, hn]; rfl
  case held   => rw [(flight_of_quiet hq).right, (flight_of_quiet hp).right, hs]

-- An operation that leaves the pending updates alone tells what it has to tell, or leaves it to do.
theorem advances_of_follow (hm : s.RoundsManned) (h : s.step C cfg .serve = some s')
    (ht : s.todo = op :: ops) (hp : s.pendingAfter C cfg op = s.server.pendingTargetUpdates)
    (ho : op.isOpening = false) (hf : s.server.flightOf d op =
      (op.tells d).toList ++ s.server.flight d (s.follow C cfg op))
    (hd : op.takes d = false) (hd' : ∀ op' ∈ s.follow C cfg op, op'.takes d = false) :
    Advances d op ops s s' := by
  obtain hplan | ⟨_, c, rfl⟩ := plan_of_serve hm h ht
  case inr => cases ho
  case inl =>
    have hn : (s.follow C cfg op).any (·.takes d) = false := by simpa using hd'
    constructor <;> rw [hplan, server_of_kept h ht hp]
    case flight => rw [flight_cons, flight_append, hf, List.append_assoc]
    case held   => rw [Sv1Server.held, Sv1Server.held, List.any_append, List.any_cons, hn, hd]

theorem advances_decided {all : List (ChannelId × PendingTargetUpdate)} {immediate : List Envelope}
    (hm : s.RoundsManned) (h : s.step C cfg .serve = some s')
    (ht : s.todo = .vardiff [] all immediate :: ops) :
    Advances d (.vardiff [] all immediate) ops s s' := by
  refine advances_of_follow hm h ht rfl rfl ?_ rfl fun op ho => ?_
  case refine_1 =>
    rw [follow, flight_broadcast]
    rfl
  case refine_2 =>
    obtain ⟨_, _, rfl⟩ := List.mem_map.mp ho
    rfl

theorem advances_broadcast {e : Envelope} (hm : s.RoundsManned) (h : s.step C cfg .serve = some s')
    (ht : s.todo = .broadcast e :: ops) : Advances d (.broadcast e) ops s s' :=
  advances_of_follow hm h ht rfl rfl (List.append_nil _).symm rfl (List.forall_mem_nil _)

theorem advances_setUpstreamTarget {d' : DownstreamId} {t : Target} (hm : s.RoundsManned)
    (h : s.step C cfg .serve = some s') (ht : s.todo = .setUpstreamTarget d' t :: ops) :
    Advances d (.setUpstreamTarget d' t) ops s s' :=
  advances_of_follow hm h ht rfl rfl rfl rfl (List.forall_mem_nil _)

theorem setDifficulty_of_builds {c : ChannelId} {d' : Option DownstreamId} {t : Target}
    (h : C.buildsSv1SetDifficulty t) : setDifficulty C c d' t = [⟨c, d', .setDifficulty t⟩] :=
  if_pos h

theorem advances_sendPending {u : PendingTargetUpdate} (hu : s.Sendable C u) (hm : s.RoundsManned)
    (h : s.step C cfg .serve = some s') (ht : s.todo = .sendPending u :: ops) :
    Advances d (.sendPending u) ops s s' := by
  refine advances_of_follow hm h ht rfl rfl ?_ rfl fun op ho => ?_
  case refine_2 =>
    obtain ⟨_, _, ho⟩ := mem_elim.mp ho
    obtain ⟨_, _, rfl⟩ := List.mem_map.mp ho
    rfl
  case refine_1 =>
    rw [follow, Sv1Server.flightOf]
    by_cases hd : u.downstreamId ∈ s.server.downstreams
    case neg =>
      have hc : s.channelIdOf u.downstreamId = none := by simp [channelIdOf, getDownstream, hd]
      have hn : ¬(u.downstreamId = d ∧ d ∈ s.server.downstreams) := fun h => hd (h.left ▸ h.right)
      rw [if_neg hn, hc]
      rfl
    case pos =>
      obtain ⟨o, ho, hc⟩ := hu.channel
      obtain ⟨c, hc⟩ := Option.isSome_iff_exists.mp hc
      have hc : s.channelIdOf u.downstreamId = some c := channelIdOf_eq_some.mpr ⟨hd, o, ho, hc⟩
      rw [hc, Option.elim_some, setDifficulty_of_builds hu.builds, flight_broadcast]
      by_cases hu : u.downstreamId = d
      case pos =>
        rw [if_pos ⟨hu, hu ▸ hd⟩]
        simp [Envelope.difficultyFor, ServerMessage.difficulty?, ServerOp.tells, hu]
      case neg =>
        rw [if_neg fun h => hu h.left]
        simp [Envelope.difficultyFor, ServerOp.tells, hu]

-- The updates that the upstream is the answer to are on their way, or gone.
theorem advances_takePending {d' : Option DownstreamId} {t : Target} (hm : s.RoundsManned)
    (h : s.step C cfg .serve = some s') (ht : s.todo = [.takePending d' t]) :
    Advances d (.takePending d' t) [] s s' := by
  obtain hp | ⟨_, c, hc⟩ := plan_of_serve hm h ht
  case inr => cases hc
  case inl =>
    rw [follow, List.append_nil] at hp
    have hs : s'.server = s.server.takePending d' := server_of_serve h ht
    constructor
    case flight =>
      rw [hp, flight_sendPending, hs, applicable_filter, flight_cons, Sv1Server.flightOf]
      by_cases hd : d ∈ s.server.downstreams <;> simp [hd, ServerOp.tells, Sv1Server.flight,
        Sv1Server.takePending]
    case held =>
      have hn : ∀ op ∈ s'.plan, op.takes d = false := by
        rw [hp]
        intro op ho
        obtain ⟨_, _, rfl⟩ := List.mem_map.mp ho
        rfl
      rw [held_of_no_takes hn, hs, takePending_pendingOf]
      simp [Sv1Server.held, ServerOp.takes]

-- Between two decisions a miner gets no more than it has coming to it.
theorem advances_of_course (hv : cfg.enableVardiff) (hm : s.RoundsManned)
    (hc : s.Course C cfg (op :: ops)) (h : s.step C cfg .serve = some s') (ht : s.todo = op :: ops)
    (ho : ∀ u us all immediate, op ≠ .vardiff (u :: us) all immediate) : Advances d op ops s s' := by
  generalize hops : op :: ops = todo at hc
  cases hc with
  | quiet hq =>
    subst hops
    exact advances_quiet hm hq h ht
  | deciding us _ =>
    cases hops
    cases us with
    | nil        => exact advances_decided hm h ht
    | cons u us  => exact absurd rfl (ho u us _ _)
  | answering ds _ =>
    cases ds with
    | nil =>
      cases hops
      exact advances_takePending hm h ht
    | cons d' ds =>
      cases hops
      exact advances_setUpstreamTarget hm h ht
  | sending hq =>
    subst hops
    have hop : s.Sends C op := hq op List.mem_cons_self
    cases op with
    | broadcast e   => exact advances_broadcast hm h ht
    | sendPending u => exact advances_sendPending hop.left hm h ht
    | _             => cases hop
  | forwarding ds hf _ =>
    rw [hv] at hf
    cases hf

section Rounds

variable {d' : DownstreamId} {hashrate : Hashrate} {us : List (DownstreamId × Hashrate)}
variable {all : List (ChannelId × PendingTargetUpdate)} {immediate : List Envelope} {t : Target}

-- What a round tells the miner that it is about, and others.
theorem vardiffRound_difficulties (hb : C.Builds cfg) :
    (s.vardiffRound C cfg d' hashrate).2.2.filterMap (·.difficultyFor d) =
      if d' = d then (s.atOnce C cfg d' hashrate).toList else [] := by
  rw [vardiffRound_of_decision.right.right]
  cases ht : s.atOnce C cfg d' hashrate with
  | none   => exact (ite_self []).symm
  | some t =>
    obtain ⟨hd, o, c, ho, hc, ht, _⟩ := decision_eq_some (atOnce_eq_some.mp ht)
    have hc : s.channelIdOf d' = some c := channelIdOf_eq_some.mpr ⟨hd, o, ho, hc⟩
    rw [Option.elim_some, hc, Option.elim_some, setDifficulty_of_builds (hb _ _ ht)]
    by_cases hd : d' = d <;> simp [Envelope.difficultyFor, ServerMessage.difficulty?, hd]

theorem pendingAfter_pendingOf {server : Sv1Server}
    (hs : server = { s.server with
      pendingTargetUpdates := s.pendingAfter C cfg (.vardiff ((d', hashrate) :: us) all immediate) }) :
    server.pendingOf d = s.server.pendingOf d ++
      if d' = d then (s.delayed C cfg d' hashrate).toList else [] := by
  rw [hs, Sv1Server.pendingOf, Sv1Server.pendingOf, pendingAfter, List.filter_append, List.map_append]
  refine congrArg _ ?_
  cases s.delayed C cfg d' hashrate with
  | none   => exact (ite_self []).symm
  | some t => by_cases hd : d' = d <;> simp [hd]

theorem decides_eq : s.decides C cfg d (.vardiff ((d, hashrate) :: us) all immediate) =
    ((s.atOnce C cfg d hashrate).map .now <|> (s.delayed C cfg d hashrate).map .later) := by
  rw [decides, if_pos rfl, atOnce, delayed]
  cases s.decision C cfg d hashrate with
  | none   => rfl
  | some r =>
    obtain ⟨t, b⟩ := r
    cases b <;> rfl

theorem atOnce_of_delayed (h : s.delayed C cfg d' hashrate = some t) :
    s.atOnce C cfg d' hashrate = none := by
  rw [atOnce, delayed_eq_some.mp h]
  rfl

-- A round leaves the miner what it has found for it, sent at once or left to wait.
theorem round_flight (hb : C.Builds cfg) (hm : s.RoundsManned) (h : s.step C cfg .serve = some s')
    (ht : s.todo = [.vardiff ((d', hashrate) :: us) all immediate]) :
    s'.server.flight d s'.plan = s.server.flight d s.todo ++
      (if d' = d then (s.atOnce C cfg d' hashrate).toList else []) ∧
    s'.server.held d s'.plan = s.server.held d s.todo ++
      if d' = d then (s.delayed C cfg d' hashrate).toList else [] := by
  obtain hplan | ⟨_, c, hc⟩ := plan_of_serve hm h ht
  case inr => cases hc
  case inl =>
    rw [List.append_nil, follow] at hplan
    rw [hplan, ht]
    constructor
    case left =>
      rw [flight_cons, flight_cons, Sv1Server.flightOf, Sv1Server.flightOf, List.filterMap_append,
        vardiffRound_difficulties hb]
      exact (List.append_nil _).trans (congrArg (· ++ _) (List.append_nil _).symm)
    case right =>
      have hn {us : List (DownstreamId × Hashrate)} {all : List (ChannelId × PendingTargetUpdate)}
          {es : List Envelope} : ∀ op ∈ [ServerOp.vardiff us all es], op.takes d = false := by
        intro op ho
        cases List.mem_singleton.mp ho
        rfl
      rw [held_of_no_takes hn, held_of_no_takes hn]
      exact pendingAfter_pendingOf (server_of_serve h ht)

theorem booked_round (hb : C.Builds cfg) (hm : s.RoundsManned) (hk : Booked d l q s)
    (h : s.step C cfg .serve = some s') (ht : s.todo = [.vardiff ((d', hashrate) :: us) all immediate]) :
    Booked d ((s.decides C cfg d (.vardiff ((d', hashrate) :: us) all immediate)).elim l
      (l.follow admits)) q s' := by
  obtain ⟨_, _, _, hr, _⟩ := serve_eq_some h
  obtain ⟨hf, hh⟩ := round_flight (d := d) hb hm h ht
  have hs : s'.server.downstreams = s.server.downstreams := by rw [server_of_serve h ht]
  have hp := hk.passed
  have hw := hk.waiting
  have ha (ho : s'.objects.lookup d = none) : s.objects.lookup d = none := absent_of_step h ho
  rw [plan_of_running hr] at hp hw
  rw [← hs] at hw
  by_cases hd : d' = d
  case neg =>
    rw [if_neg hd, List.append_nil] at hf hh
    rw [decides, if_neg hd]
    exact ⟨hf ▸ hp, fun hd => hh ▸ hw hd, fun ho => hk.absent (ha ho)⟩
  case pos =>
    subst hd
    rw [if_pos rfl] at hf hh
    rw [decides_eq]
    cases hn : s.atOnce C cfg d' hashrate with
    | some t =>
      have hl : s.delayed C cfg d' hashrate = none := by
        cases hl : s.delayed C cfg d' hashrate with
        | none   => rfl
        | some _ => cases (atOnce_of_delayed hl).symm.trans hn
      rw [hn] at hf
      rw [hl] at hh
      refine ⟨?_, fun hd => ?_, fun ho => hk.absent (ha ho)⟩
      case refine_1 => simp [Ledger.follow, hp, hf]
      case refine_2 => simpa [Ledger.follow, hh] using hw hd
    | none   =>
      rw [hn] at hf
      cases hl : s.delayed C cfg d' hashrate with
      | none   =>
        rw [hl] at hh
        refine ⟨?_, fun hd => ?_, fun ho => hk.absent (ha ho)⟩
        case refine_1 => simpa [hf] using hp
        case refine_2 => simpa [hh] using hw hd
      | some t =>
        rw [hl] at hh
        refine ⟨?_, fun hd => ?_, fun ho => ?_⟩
        case refine_1 => simpa [Ledger.follow, hf] using hp
        case refine_2 => simpa [Ledger.follow, hh] using hw hd
        case refine_3 =>
          obtain ⟨_, o, _, ho', _⟩ := decision_eq_some (delayed_eq_some.mp hl)
          cases (ha ho).symm.trans ho'

end Rounds

theorem deferral_of_serve (ht : s.todo = op :: ops) :
    deferral C cfg d ⟨s, .serve, s'⟩ = s.decides C cfg d op ∧ queues d ⟨s, .serve, s'⟩ = op.tells d := by
  simp [deferral, queues, ht]

theorem booked_serve (hv : cfg.enableVardiff) (hb : C.Builds cfg) (hs : s.Steered C cfg)
    (hk : Booked d l q s) (h : s.step C cfg .serve = some s') :
    Booked d ((deferral C cfg d ⟨s, .serve, s'⟩).elim l (l.follow admits))
      (q ++ (queues d ⟨s, .serve, s'⟩).toList) s' := by
  obtain ⟨op, ops, ht, hr, _⟩ := serve_eq_some h
  have hc := hs.course
  rw [plan_of_running hr, ht] at hc
  have hserve : deferral C cfg d ⟨s, .serve, s'⟩ = s.decides C cfg d op ∧ _ := deferral_of_serve ht
  rw [hserve.left, hserve.right]
  by_cases ho : ∃ u us all immediate, op = .vardiff (u :: us) all immediate
  case pos =>
    obtain ⟨u, us, all, immediate, rfl⟩ := ho
    obtain rfl : ops = [] := by
      generalize hops : ServerOp.vardiff (u :: us) all immediate :: ops = todo at hc
      cases hc with
      | quiet hq          => cases hq _ (hops ▸ List.mem_cons_self)
      | deciding _ _      => exact (List.cons.inj hops).right
      | answering ds _    => cases ds <;> cases hops
      | sending hq        => cases hq _ (hops ▸ List.mem_cons_self)
      | @forwarding es ds => cases es <;> cases ds <;> cases hops
    rw [ServerOp.tells, Option.toList_none, List.append_nil]
    · exact booked_round hb hs.manned hk h ht
    · exact fun _ h => ServerOp.noConfusion h
  case neg =>
    have hn : ∀ u us all immediate, op ≠ .vardiff (u :: us) all immediate :=
      fun u us all immediate h => ho ⟨u, us, all, immediate, h⟩
    have hd : s.decides C cfg d op = none := by
      cases op with
      | vardiff us all immediate =>
        cases us with
        | nil       => rfl
        | cons u us => exact absurd rfl (hn u us all immediate)
      | _ => rfl
    have ha : Advances d op ops s s' := advances_of_course hv hs.manned hc h ht hn
    rw [hd]
    exact hk.serve h ht ha.flight ha.held

end Serve

section Others

variable {t : Target}

-- While the server is at something, the actions of others change nothing of it.
theorem plan_of_busy (h : s.step C cfg a = some s') (ha : a ≠ .serve) (ht : s.todo ≠ []) :
    s'.plan = s.plan ∧ s'.server = s.server := by
  constructor
  case left =>
    obtain ⟨hn, hs | ⟨hs, _⟩⟩ | ⟨_, _, hs, _⟩ | ⟨_, hp⟩ := plan_of_step h
    case inl.inl     => exact hn.trans hs.symm
    case inl.inr     => exact absurd hs ha
    case inr.inl     => exact absurd hs ha
    case inr.inr     => rw [hp, begins_of_busy h ht, List.nil_append]
  case right =>
    obtain hn | ⟨updates, hs⟩ := server_of_step h
    case inl => exact absurd hn ht
    case inr =>
      have hp := pending_of_step h ha
      rw [hs] at hp ⊢
      rw [show updates = s.server.pendingTargetUpdates from hp]

theorem downstreams_of_step (h : s.step C cfg a = some s') (hd : d ∈ s'.server.downstreams) :
    d ∈ s.server.downstreams ∨ d = s.server.downstreamIdFactory := by
  have hr := revises_of_step h
  generalize s'.server = server at hr hd
  cases hr with
  | accept _     => exact (List.mem_append.mp hd).imp_right List.mem_singleton.mp
  | shutdown _   => exact .inl (List.mem_of_mem_filter hd)
  | fallback _   => cases hd
  | job _ _ _    =>
    rw [storeJob_kept.right.left] at hd
    exact .inl hd
  | _            => exact .inl hd

-- A new upstream target lets what waits for it go.
theorem Booked.answer {b : Bool} (hk : Booked d l q s) (d' : Option DownstreamId)
    (ds : List DownstreamId) (hp : s.plan = []) (hs : s'.server = s.server)
    (ho : s'.objects = s.objects)
    (hplan : s'.plan = ds.map (.setUpstreamTarget · t) ++ [.takePending d' t])
    (hb : b = true ↔ d'.all (· = d) ∧ d ∈ s.server.downstreams) :
    Booked d (if b then l.follow admits (.answer t) else l) q s' := by
  have hq : l.passed.map (·.2) = q := by
    have hq := hk.passed
    rw [hp] at hq
    exact hq.trans (List.append_nil q)
  have hw (hd : d ∈ s.server.downstreams) : l.waiting.map (·.2) = s.server.pendingOf d := by
    have hw := hk.waiting hd
    rw [hp] at hw
    exact hw
  have hf : s'.server.flight d s'.plan =
      if d'.all (· = d) ∧ d ∈ s.server.downstreams then (s.server.pendingOf d).filter (t ≤ ·)
      else [] := by
    rw [hplan, hs, flight_setUpstreamTarget]
    exact List.append_nil _
  have hh : s'.server.held d s'.plan = if d'.all (· = d) then [] else s.server.pendingOf d := by
    rw [hplan, hs, held_setUpstreamTarget]
    simp [Sv1Server.held, ServerOp.takes]
  by_cases hc : d'.all (· = d) ∧ d ∈ s.server.downstreams
  case pos =>
    rw [if_pos (hb.mpr hc)]
    rw [if_pos hc] at hf
    rw [if_pos hc.left] at hh
    refine ⟨?_, fun _ => hh ▸ rfl, fun _ => rfl⟩
    rw [hf, ← hw hc.right, Ledger.follow, List.map_append, hq, List.filter_map]
    rfl
  case neg =>
    rw [if_neg fun h => hc (hb.mp h)]
    rw [if_neg hc] at hf
    refine ⟨?_, fun hd => ?_, fun h => hk.absent (ho ▸ h)⟩
    case refine_1 => rw [hf, hq, List.append_nil]
    case refine_2 =>
      have hd : d ∈ s.server.downstreams := hs ▸ hd
      rw [hh, if_neg fun h => hc ⟨h, hd⟩]
      exact hw hd

-- What begins when the server is idle has nothing for a miner yet, and leaves what waits for it.
theorem Booked.idle (hk : Booked d l q s) (hs : s.Steered C cfg) (hp : s.plan = [])
    (h : s.step C cfg a = some s') (ha : a ≠ .serve)
    (hf : s'.server.flight d s'.plan = [] ∧ s'.server.held d s'.plan = s'.server.pendingOf d) :
    Booked d l q s' := by
  have hq := hk.passed
  have hw := hk.waiting
  rw [hp] at hq hw
  refine ⟨?_, fun hd => ?_, fun ho => hk.absent (absent_of_step h ho)⟩
  case refine_1 => rw [hf.left, hq]; rfl
  case refine_2 =>
    have hpend : s'.server.pendingOf d = s.server.pendingOf d := by
      rw [Sv1Server.pendingOf, Sv1Server.pendingOf, pending_of_step h ha]
    rw [hf.right, hpend]
    cases downstreams_of_step h hd with
    | inl hd => exact hw hd
    | inr hd =>
      -- A new miner has a new id, so nothing waits for it.
      have hn : s.objects.lookup d = none := by
        cases ho : s.objects.lookup d with
        | none   => rfl
        | some o => exact absurd hd (Nat.ne_of_lt (hs.staged.fresh d o ho))
      have hnone : s.server.pendingOf d = [] := by
        rw [Sv1Server.pendingOf, List.map_eq_nil_iff, List.filter_eq_nil_iff]
        intro u hu hud
        obtain ⟨o, ho, _⟩ := (hs.pending u hu).channel
        rw [of_decide_eq_true hud, hn] at ho
        cases ho
      rw [hk.absent hn, hnone]
      rfl

theorem booked_setTarget {m : SetTarget} (hv : cfg.enableVardiff) (hk : Booked d l q s)
    (h : s.step C cfg (.upstream (.setTarget m)) = some s') :
    Booked d (if s.concerns cfg m d then l.follow admits (.answer m.maximumTarget) else l) q s' := by
  obtain ⟨hr, ht, rfl⟩ := idle_eq_some h
  have hp : s.plan = [] := plan_of_idle ht
  rw [handleUpstreamMessage, handleSetTarget, hv]
  cases ha : cfg.aggregateChannels with
  | true  =>
    refine hk.answer none s.server.downstreams hp rfl rfl ?_ ?_
    case refine_1 =>
      rw [plan_of_running (s := s.next _) hr]
      simp [next, ht]
    case refine_2 => simp [concerns, ha]
  | false =>
    cases hd : s.downstreamOfChannel m.channelId with
    | none    =>
      have hc : s.concerns cfg m d = false := by simp [concerns, ha, hd]
      rw [hc]
      exact hk
    | some d' =>
      have hm : d' ∈ s.server.downstreams := List.mem_of_find?_eq_some hd
      refine hk.answer (some d') [d'] hp rfl rfl ?_ ?_
      case refine_1 =>
        rw [plan_of_running (s := s.next _) hr]
        simp [next, ht]
      case refine_2 =>
        simp only [concerns, ha, hd, Bool.false_eq_true, if_false, Option.some.injEq,
          decide_eq_true_eq, Option.all_some]
        exact ⟨fun h => ⟨h, h ▸ hm⟩, fun h => h.left⟩

theorem deferral_eq_none (ha : a ≠ .serve) (hm : ∀ m, a ≠ .upstream (.setTarget m)) :
    deferral C cfg d ⟨s, a, s'⟩ = none := by
  cases a with
  | upstream m =>
    cases m with
    | setTarget m => exact absurd rfl (hm m)
    | _           => rfl
  | serve => exact absurd rfl ha
  | _     => rfl

theorem Booked.busy (hk : Booked d l q s) (h : s.step C cfg a = some s') (ha : a ≠ .serve)
    (ht : s.todo ≠ []) : Booked d l q s' := by
  obtain ⟨hp, hs⟩ := plan_of_busy h ha ht
  constructor
  case passed  => rw [hp, hs]; exact hk.passed
  case waiting => rw [hp, hs]; exact hk.waiting
  case absent  => exact fun ho => hk.absent (absent_of_step h ho)

-- Apart from the target of the upstream, nothing that begins is for a miner yet.
theorem flight_begins (h : s.step C cfg a = some s') (hm : ∀ m, a ≠ .upstream (.setTarget m)) :
    s'.server.flight d (s.begins C cfg a) = [] ∧
      s'.server.held d (s.begins C cfg a) = s'.server.pendingOf d := by
  by_cases ht : ∃ us, a = .tick us
  case pos =>
    obtain ⟨us, rfl⟩ := ht
    exact ⟨rfl, rfl⟩
  case neg => exact flight_of_quiet (begins_isQuiet h hm fun us h => ht ⟨us, h⟩)

theorem booked_other (hv : cfg.enableVardiff) (hs : s.Steered C cfg) (hk : Booked d l q s)
    (ha : a ≠ .serve) (h : s.step C cfg a = some s') :
    Booked d ((deferral C cfg d ⟨s, a, s'⟩).elim l (l.follow admits)) q s' := by
  by_cases hm : ∃ m, a = .upstream (.setTarget m)
  case pos =>
    obtain ⟨m, rfl⟩ := hm
    rw [deferral]
    have hb := booked_setTarget hv hk h
    cases hc : s.concerns cfg m d with
    | true  => simpa [hc] using hb
    | false => simpa [hc] using hb
  case neg =>
    have hm : ∀ m, a ≠ .upstream (.setTarget m) := fun m h => hm ⟨m, h⟩
    rw [deferral_eq_none ha hm]
    by_cases ht : s.todo = []
    case neg => exact hk.busy h ha ht
    case pos =>
      have hp : s.plan = [] := plan_of_idle ht
      refine hk.idle hs hp h ha ?_
      obtain ⟨hn, _⟩ | ⟨_, _, hse, _⟩ | ⟨_, hn⟩ := plan_of_step h
      case inl     => rw [hn]; exact ⟨rfl, rfl⟩
      case inr.inl => exact absurd hse ha
      case inr.inr =>
        rw [hn, hp, List.append_nil]
        exact flight_begins h hm

end Others

theorem booked_new : Booked d .empty [] (new cfg.aggregateChannels) where
  passed    := rfl
  waiting h := by cases h
  absent _  := rfl

theorem booked_step (hv : cfg.enableVardiff) (hb : C.Builds cfg) (hs : s.Steered C cfg)
    (hk : Booked d l q s) (h : s.step C cfg a = some s') :
    Booked d ((deferral C cfg d ⟨s, a, s'⟩).elim l (l.follow admits))
      (q ++ (queues d ⟨s, a, s'⟩).toList) s' := by
  by_cases ha : a = .serve
  case pos =>
    subst ha
    exact booked_serve hv hb hs hk h
  case neg =>
    have hq : queues d ⟨s, a, s'⟩ = none := by
      cases a with
      | serve => exact absurd rfl ha
      | _     => rfl
    rw [hq, Option.toList_none, List.append_nil]
    exact booked_other hv hs hk ha h

end System

end Translator.Sv1
