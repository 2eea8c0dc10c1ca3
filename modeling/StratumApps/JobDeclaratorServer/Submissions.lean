import StratumApps.JobDeclaratorServer.Server

open Machine

namespace Jds

-- What `submit_block` of the client for the node gives back.
abbrev SubmitReply := Except String Unit

-- A call of `on_submit` that has returned, with the blocks that it has submitted.
structure OnSubmit where
  submissions : List (String × SubmitReply)
  result      : Except JdsMempoolError Unit
  deriving DecidableEq

-- Where the task waits: to go round its own loop, for a block, and for the node.
inductive SubmitPhase
  | calling
  | receiving
  | submitting (blockHex : String)
  | ended
  deriving DecidableEq

-- The task that submits blocks, with the queue it takes them from, what the call that is running has
-- submitted, the calls before it, and the errors that were reported.
structure Submitter where
  client      : Option MiniRpcClient
  newBlocks   : BlockChannel
  closed      : Bool
  phase       : SubmitPhase
  submissions : List (String × SubmitReply)
  calls       : List OnSubmit
  statuses    : List JdsMempoolError
  deriving DecidableEq

namespace Submitter

inductive Action
  | queue (blockHex : String)
  | close
  | call
  | recv
  | reply (r : SubmitReply)

def new (client : MiniRpcClient) : Submitter where
  client      := some client
  newBlocks   := ⟨[], 0⟩
  closed      := false
  phase       := .calling
  submissions := []
  calls       := []
  statuses    := []

variable (s : Submitter)

-- What the task does with the result of a call.
def handleResult : Except JdsMempoolError Unit → Submitter
  | .ok () | .error .emptyMempool => { s with phase := .calling }
  | .error e                      => { s with phase := .ended, statuses := s.statuses ++ [e] }

def returns (result : Except JdsMempoolError Unit) : Submitter :=
  let call : OnSubmit := ⟨s.submissions, result⟩
  { s with calls := s.calls ++ [call], submissions := [] }.handleResult result

def onSubmit : Submitter :=
  match s.client with
  | none   => s.returns (.error .noClient)
  | some _ => { s with phase := .receiving }

-- The queue can only be read to its end, and then says so.
def onRecv : Option Submitter :=
  match s.newBlocks.queued[s.newBlocks.received]? with
  | some blockHex => some { s with
    newBlocks.received := s.newBlocks.received + 1
    phase              := .submitting blockHex }
  | none          => if s.closed then some (s.returns (.ok ())) else none

-- The error of a refused block is made, and dropped.
def onReply (blockHex : String) (r : SubmitReply) : Submitter :=
  let s := { s with submissions := s.submissions ++ [(blockHex, r)] }
  match r with
  | .ok ()   => s.returns (.ok ())
  | .error _ => { s with phase := .receiving }

def step : Action → Option Submitter
  | .queue blockHex =>
    if ¬s.closed ∧ s.newBlocks.queued.length - s.newBlocks.received < 10 then
      some { s with newBlocks.queued := s.newBlocks.queued ++ [blockHex] }
    else
      none
  | .close => some { s with closed := true }
  | .call  =>
    match s.phase with
    | .calling => some s.onSubmit
    | _        => none
  | .recv  =>
    match s.phase with
    | .receiving => s.onRecv
    | _          => none
  | .reply r =>
    match s.phase with
    | .submitting blockHex => some (s.onReply blockHex r)
    | _                    => none

end Submitter

-- The server starts once its node has answered the health check, so there is a client for it.
def submitter : Machine Submitter Submitter.Action where
  Init s := ∃ client, s = .new client
  step s a := s.step a

namespace SubmitPhase

def block? : SubmitPhase → Option String
  | .submitting blockHex => some blockHex
  | _                    => none

end SubmitPhase

namespace OnSubmit

-- The error that the task reports.
def error? (c : OnSubmit) : Option JdsMempoolError :=
  match c.result with
  | .ok () | .error .emptyMempool => none
  | .error e                      => some e

-- A refused block is the last one of its call, and the call returns the error.
def Faithful (c : OnSubmit) : Prop :=
  ∀ before blockHex e after, c.submissions = before ++ (blockHex, .error e) :: after →
    after = [] ∧ c.result = .error (.rpc e)

theorem faithful_of_accepted {c : OnSubmit} (h : ∀ p ∈ c.submissions, p.2 = .ok ()) : c.Faithful := by
  intro before blockHex e after he
  have hp := h (blockHex, .error e) (he ▸ List.mem_append_right _ List.mem_cons_self)
  cases hp

end OnSubmit

namespace Submitter

variable {s s' : Submitter} {a : Action} {o : Except JdsMempoolError Unit} {r : SubmitReply}
variable {tr : List (Event Submitter Action)} {blockHex : String}

-- What a step can do.
inductive Turns (s : Submitter) : Action → Submitter → Prop
  | queue (blockHex : String) :
    Turns s (.queue blockHex) { s with newBlocks.queued := s.newBlocks.queued ++ [blockHex] }
  | close : Turns s .close { s with closed := true }
  | noClient (hp : s.phase = .calling) : Turns s .call (s.returns (.error .noClient))
  | call (hp : s.phase = .calling) : Turns s .call { s with phase := .receiving }
  | recv {blockHex : String} (hp : s.phase = .receiving)
    (hb : s.newBlocks.queued[s.newBlocks.received]? = some blockHex) :
    Turns s .recv { s with
      newBlocks.received := s.newBlocks.received + 1
      phase              := .submitting blockHex }
  | drained (hp : s.phase = .receiving) : Turns s .recv (s.returns (.ok ()))
  | reply {blockHex : String} (r : SubmitReply) (hp : s.phase = .submitting blockHex) :
    Turns s (.reply r) (s.onReply blockHex r)

theorem turns_of_step (h : s.step a = some s') : s.Turns a s' := by
  cases a with
  | queue blockHex =>
    have ⟨_, h⟩ := Option.ite_none_right_eq_some.mp h
    cases h
    exact .queue blockHex
  | close =>
    cases h
    exact .close
  | call =>
    rw [step] at h
    split at h <;> cases h
    rw [onSubmit]
    split
    case h_1 => exact .noClient ‹_›
    case h_2 => exact .call ‹_›
  | recv =>
    rw [step] at h
    split at h
    case h_2 => cases h
    case h_1 hp =>
      rw [onRecv] at h
      split at h
      case h_1 hb =>
        cases h
        exact .recv hp hb
      case h_2 =>
        have ⟨_, h⟩ := Option.ite_none_right_eq_some.mp h
        cases h
        exact .drained hp
  | reply r =>
    rw [step] at h
    split at h <;> cases h
    exact .reply r ‹_›

section Returns

-- The fields behind a call that has returned.
variable (s : Submitter) (result : Except JdsMempoolError Unit)

@[simp]
theorem returns_newBlocks : (s.returns result).newBlocks = s.newBlocks := by
  cases result with
  | ok      => rfl
  | error e => cases e <;> rfl

@[simp]
theorem returns_calls : (s.returns result).calls = s.calls ++ [⟨s.submissions, result⟩] := by
  cases result with
  | ok      => rfl
  | error e => cases e <;> rfl

@[simp]
theorem returns_submissions : (s.returns result).submissions = [] := by
  cases result with
  | ok      => rfl
  | error e => cases e <;> rfl

@[simp]
theorem returns_block? : (s.returns result).phase.block? = none := by
  cases result with
  | ok      => rfl
  | error e => cases e <;> rfl

@[simp]
theorem returns_statuses : (s.returns result).statuses =
    s.statuses ++ (OnSubmit.error? ⟨s.submissions, result⟩).toList := by
  cases result with
  | ok      => exact (List.append_nil _).symm
  | error e => cases e <;> first | rfl | exact (List.append_nil _).symm

end Returns

-- The blocks that were submitted, and the one under way.
def submitted (s : Submitter) : List String :=
  ((s.calls.flatMap (·.submissions) ++ s.submissions).map (·.1)) ++ s.phase.block?.toList

-- Every block that was taken out of the queue was submitted once, in the order of the queue, and every
-- error was reported.
structure Ordered (s : Submitter) : Prop where
  taken    : s.newBlocks.received ≤ s.newBlocks.queued.length
  inOrder  : s.submitted = s.newBlocks.queued.take s.newBlocks.received
  reported : s.statuses = s.calls.filterMap (·.error?)

-- No call has gone on, or returned anything but its error, behind a refused block.
structure Sound (s : Submitter) : Prop extends s.Ordered where
  returned : ∀ c ∈ s.calls, c.Faithful
  running  : ∀ p ∈ s.submissions, p.2 = .ok ()

-- The node does not refuse a block.
def Accepts (_ : Submitter) (a : Action) : Prop :=
  ∀ r, a = .reply r → r = .ok ()

namespace Ordered

theorem new {client : MiniRpcClient} : (Submitter.new client).Ordered where
  taken    := Nat.le_refl 0
  inOrder  := rfl
  reported := rfl

theorem goesTo (h : s.Ordered) {phase : SubmitPhase} (hp : phase.block? = s.phase.block?) :
    { s with phase := phase }.Ordered where
  taken    := h.taken
  inOrder  := by rw [← h.inOrder, submitted, submitted, hp]
  reported := h.reported

theorem returns (h : s.Ordered) (hp : s.phase.block? = none) : (s.returns o).Ordered where
  taken    := by simpa using h.taken
  inOrder  := by simpa [submitted, hp] using h.inOrder
  reported := by cases he : OnSubmit.error? ⟨s.submissions, o⟩ <;> simp [h.reported, he]

theorem answered (h : s.Ordered) (hp : s.phase = .submitting blockHex) :
    { s with
      submissions := s.submissions ++ [(blockHex, r)]
      phase       := .receiving }.Ordered where
  taken    := h.taken
  inOrder  := by simpa [submitted, hp, SubmitPhase.block?] using h.inOrder
  reported := h.reported

theorem onReply (h : s.Ordered) (hp : s.phase = .submitting blockHex) :
    (s.onReply blockHex r).Ordered := by
  cases r with
  | ok    => exact (h.answered hp).returns (o := .ok ()) rfl
  | error => exact h.answered hp

theorem step (h : s.Ordered) (ht : s.Turns a s') : s'.Ordered := by
  cases ht with
  | queue     =>
    exact ⟨Nat.le_trans h.taken (by simp), h.inOrder.trans (List.take_append_of_le_length h.taken).symm,
      h.reported⟩
  | close       => exact ⟨h.taken, h.inOrder, h.reported⟩
  | noClient hp => exact h.returns (hp ▸ rfl)
  | call hp     => exact h.goesTo (hp ▸ rfl)
  | drained hp  => exact h.returns (hp ▸ rfl)
  | reply r hp  => exact h.onReply hp
  | recv hp hb  =>
    have ho := h.inOrder
    rw [submitted, hp] at ho
    refine ⟨(List.getElem?_eq_some_iff.mp hb).choose, ?_, h.reported⟩
    rw [List.take_add_one, hb, ← ho]
    simp [submitted, SubmitPhase.block?]

end Ordered

namespace Sound

theorem init (h : submitter.Init s) : s.Sound := by
  obtain ⟨client, rfl⟩ := h
  exact ⟨.new, nofun, nofun⟩

-- A call that has submitted no refused block may return.
theorem returns (h : s.Sound) (hp : s.phase.block? = none) : (s.returns o).Sound where
  toOrdered      := h.toOrdered.returns hp
  running p hp   := by simp at hp
  returned c hc  := by
    rw [returns_calls, List.mem_append, List.mem_singleton] at hc
    rcases hc with hc | rfl
    · exact h.returned c hc
    · exact OnSubmit.faithful_of_accepted h.running

theorem step (h : s.Sound) (ha : s.Accepts a) (ht : s.Turns a s') : s'.Sound := by
  have ho := h.toOrdered.step ht
  cases ht with
  | queue | close | call | recv => exact ⟨ho, h.returned, h.running⟩
  | noClient hp                 => exact h.returns (hp ▸ rfl)
  | drained hp                  => exact h.returns (hp ▸ rfl)
  | @reply blockHex r hp        =>
    cases ha r rfl
    have hr (p : String × SubmitReply) (hm : p ∈ s.submissions ++ [(blockHex, .ok ())]) :
        p.2 = .ok () := by
      rcases List.mem_append.mp hm with hm | hm
      · exact h.running p hm
      · rw [List.mem_singleton.mp hm]
    have ha : Sound _ := ⟨h.toOrdered.answered hp, h.returned, hr⟩
    exact ha.returns (o := .ok ()) rfl

end Sound

-- A refused block leaves a call that goes on.
theorem accepts_of_sound (hs : s.step a = some s') (h : s'.Sound) : s.Accepts a := by
  rintro r rfl
  cases turns_of_step hs with
  | @reply blockHex _ hp => cases r with
    | ok    => rfl
    | error => cases h.running (blockHex, .error _) List.mem_concat_self

theorem ordered_of_run (r : submitter.Run tr s) : s.Ordered :=
  r.reachable.invariant (fun _ hi => (Sound.init hi).toOrdered) fun _ _ _ h hs =>
    h.step (turns_of_step hs)

theorem refusals_reported_iff (r : submitter.Run tr s) :
    (∀ e ∈ tr, e.post.Sound) ↔ Machine.Along Accepts tr :=
  r.forall_iff_along (I := Sound) (fun _ => Sound.init)
    (fun _ _ _ h hs => ⟨accepts_of_sound hs, fun ha => h.step ha (turns_of_step hs)⟩)
    fun _ _ _ h ha hs => h.step ha (turns_of_step hs)

-- A block that the node refuses, and one that it takes, in the same call.
def refused : List Action :=
  [.queue "00", .queue "01", .call, .recv, .reply (.error "inconclusive"), .recv, .reply (.ok ())]

def accepted : List Action :=
  [.queue "00", .call, .recv, .reply (.ok ()), .call]

end Submitter

open Submitter in
theorem not_refusals_reported : ¬∀ tr s, submitter.Run tr s → s.Sound := by
  intro h
  obtain ⟨s, hs⟩ : ∃ s, submitter.exec (.new ⟨[]⟩) refused = some s := ⟨_, rfl⟩
  have hc := (h _ s (.of_exec ⟨_, rfl⟩ hs)).returned
  cases hs
  have hf := hc _ (List.mem_singleton.mpr rfl) [] "00" "inconclusive" [("01", .ok ())] rfl
  cases hf.left

open Submitter in
theorem refusals_reported_sample : ∃ tr s, submitter.Run tr s ∧ s.submitted = ["00"] ∧
    ∀ e ∈ tr, e.post.Sound := by
  have ⟨s, hs, ho⟩ : ∃ s, submitter.exec (.new ⟨[]⟩) accepted = some s ∧ s.submitted = ["00"] :=
    ⟨_, rfl, rfl⟩
  have r : submitter.Run _ s := .of_exec ⟨_, rfl⟩ hs
  refine ⟨_, s, r, ho, (refusals_reported_iff r).mpr fun e he r' hr => ?_⟩
  have ha := act_of_mem_trace he
  rw [hr] at ha
  simpa [accepted] using ha

end Jds
