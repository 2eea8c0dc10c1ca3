import StratumApps.Lib.Transition
import StratumApps.Persistence.Composite

namespace Persistence

inductive FileCommand
  | write (text : String)
  | flush
  | shutdown
  deriving DecidableEq

-- Where `worker_loop` is. It writes and flushes in the loop over `recv`, and again in the one over
-- `try_recv` after a `Shutdown`. When it ends, the receiver is dropped.
inductive WorkerLoop
  | opening
  | receiving
  | writing (line : String)
  | flushing
  | draining
  | drainWriting (line : String)
  | drainFlushing
  | lastFlush
  | ended
  deriving DecidableEq

namespace WorkerLoop

def receive : FileCommand → WorkerLoop
  | .write text => writing (text ++ "\n")
  | .flush      => flushing
  | .shutdown   => draining

def drain : FileCommand → WorkerLoop
  | .write text => drainWriting (text ++ "\n")
  | .flush      => drainFlushing
  | .shutdown   => lastFlush

end WorkerLoop

-- The clones of the backend with their channel and its worker, the lines that are in the file, and the
-- events for which `persist_event` has returned `Ok`.
structure FileBackend (Share : Type) where
  channelSize : ℕ
  senders     : ℕ
  queue       : List FileCommand
  worker      : WorkerLoop
  file        : List String
  accepted    : List (PersistenceEvent Share)

inductive FileAction (Share : Type)
  | persistEvent (event : PersistenceEvent Share)
  | flush
  | shutdown
  | clone
  | drop
  | work
  | openFails

namespace FileBackend

-- The `Debug` formatting of an event.
variable {Share : Type} (debug : PersistenceEvent Share → String) (s : FileBackend Share)

-- Whether the channel is open and has room.
def accepts : Bool :=
  s.worker ≠ .ended && s.queue.length < s.channelSize

def trySend (cmd : FileCommand) : Outcome × FileBackend Share :=
  if s.accepts then
    (.ok (), { s with queue := s.queue ++ [cmd] })
  else
    (.error .channelFull, s)

def persistEvent (event : PersistenceEvent Share) : Outcome × FileBackend Share :=
  match s.trySend (.write (debug event)) with
  | (.ok _, s)    => (.ok (), { s with accepted := s.accepted ++ [event] })
  | (.error e, s) => (.error e, s)

def flush : Outcome × FileBackend Share :=
  s.trySend .flush

def shutdown : Outcome × FileBackend Share :=
  s.trySend .shutdown

-- One step of the worker, which waits for a command as long as there are senders.
def work : Option (FileBackend Share) :=
  match s.worker with
  | .opening           => some { s with worker := .receiving }
  | .receiving         =>
    match s.queue with
    | cmd :: queue => some { s with queue := queue, worker := .receive cmd }
    | []           => if s.senders = 0 then some { s with worker := .lastFlush } else none
  | .writing line      => some { s with file := s.file ++ [line], worker := .receiving }
  | .flushing          => some { s with worker := .receiving }
  | .draining          =>
    match s.queue with
    | cmd :: queue => some { s with queue := queue, worker := .drain cmd }
    | []           => some { s with worker := .lastFlush }
  | .drainWriting line => some { s with file := s.file ++ [line], worker := .draining }
  | .drainFlushing     => some { s with worker := .draining }
  | .lastFlush         => some { s with worker := .ended }
  | .ended             => none

def step (s : FileBackend Share) : FileAction Share → Option (FileBackend Share)
  | .persistEvent event => if s.senders = 0 then none else some (s.persistEvent debug event).2
  | .flush              => if s.senders = 0 then none else some s.flush.2
  | .shutdown           => if s.senders = 0 then none else some s.shutdown.2
  | .clone              => if s.senders = 0 then none else some { s with senders := s.senders + 1 }
  | .drop               => if s.senders = 0 then none else some { s with senders := s.senders - 1 }
  | .work               => s.work
  | .openFails          => if s.worker = .opening then some { s with worker := .ended } else none

def start (channelSize : ℕ) : FileBackend Share where
  channelSize := channelSize
  senders     := 1
  queue       := []
  worker      := .opening
  file        := []
  accepted    := []

def machine : Machine (FileBackend Share) (FileAction Share) where
  Init s := ∃ channelSize, 0 < channelSize ∧ s = start channelSize
  step   := step debug

end FileBackend

-- The lines that the worker writes of what is queued, from where it is, when it is left alone.
def drained : List FileCommand → List String
  | .write text :: queue => (text ++ "\n") :: drained queue
  | .flush :: queue      => drained queue
  | .shutdown :: _       => []
  | []                   => []

def received : List FileCommand → List String
  | .write text :: queue => (text ++ "\n") :: received queue
  | .flush :: queue      => received queue
  | .shutdown :: queue   => drained queue
  | []                   => []

namespace WorkerLoop

def writes (queue : List FileCommand) : WorkerLoop → List String
  | opening | receiving | flushing => received queue
  | writing line                   => line :: received queue
  | draining | drainFlushing       => drained queue
  | drainWriting line              => line :: drained queue
  | lastFlush | ended              => []

-- The worker does not come to what is queued next.
def closes (queue : List FileCommand) : WorkerLoop → Bool
  | opening | receiving | writing _ | flushing => 2 ≤ queue.count .shutdown
  | draining | drainWriting _ | drainFlushing  => .shutdown ∈ queue
  | lastFlush | ended                          => true

end WorkerLoop

def FileCommand.lines : FileCommand → List String
  | write text       => [text ++ "\n"]
  | flush | shutdown => []

section Writes

variable {queue : List FileCommand} {cmd : FileCommand} {worker : WorkerLoop}

theorem drained_concat : drained (queue ++ [cmd]) =
    drained queue ++ if .shutdown ∈ queue then [] else cmd.lines := by
  induction queue with
  | nil             => cases cmd <;> rfl
  | cons cmd' queue ih =>
    cases cmd' with
    | write    => simp [drained, ih]
    | flush    => simp [drained, ih]
    | shutdown => simp [drained]

theorem received_concat : received (queue ++ [cmd]) =
    received queue ++ if 2 ≤ queue.count .shutdown then [] else cmd.lines := by
  induction queue with
  | nil             => cases cmd <;> rfl
  | cons cmd' queue ih =>
    cases cmd' with
    | write    => simp [received, ih]
    | flush    => simp [received, ih]
    | shutdown =>
      have hc : 2 ≤ (FileCommand.shutdown :: queue).count .shutdown ↔ .shutdown ∈ queue := by
        rw [List.count_cons_self, ← List.one_le_count_iff]
        omega
      simp only [List.cons_append, received, drained_concat, hc]

theorem WorkerLoop.writes_concat : worker.writes (queue ++ [cmd]) =
    worker.writes queue ++ if worker.closes queue then [] else cmd.lines := by
  cases worker <;> simp [writes, closes, received_concat, drained_concat]

end Writes

end Persistence
