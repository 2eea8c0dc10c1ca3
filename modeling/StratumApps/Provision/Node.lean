import StratumApps.BitcoinCore.Origins
import StratumApps.Lib.Coupling

open Sv2 Handler

namespace BitcoinCore

-- What the instance does next. It takes a message for a task, for a solution, or to pass it over, before
-- the first constraints have come and afterwards.
inductive NodeAction
  | task (a : Instance.Action)
  | submitSolution (msg : SubmitSolution)
  | skip
  | ignore

namespace NodeAction

def isConstraints : TemplateDistribution → Bool
  | .coinbaseOutputConstraints _ => true
  | _                            => false

def isHandled : TemplateDistribution → Bool
  | .coinbaseOutputConstraints _ => true
  | .requestTransactionData _    => true
  | .submitSolution _            => true
  | _                            => false

-- The constraints are in the client that the node makes for them.
def reads : NodeAction → Option (TemplateDistribution → Bool)
  | task (.run _)                       => some isConstraints
  | task (.coinbaseOutputConstraints _) => some isConstraints
  | task .constraintsFail               => some isConstraints
  | task (.requestTransactionData msg)  => some (· = .requestTransactionData msg)
  | task _                              => none
  | submitSolution msg                  => some (· = .submitSolution msg)
  | skip                                => some (!isConstraints ·)
  | ignore                              => some (!isHandled ·)

def task? : Machine.Event Instance NodeAction → Option (Machine.Event Instance Instance.Action)
  | ⟨s, task a, s'⟩ => some ⟨s, a, s'⟩
  | _               => none

-- What the tasks do in a run.
def tasks (tr : List (Machine.Event Instance NodeAction)) :
    List (Machine.Event Instance Instance.Action) :=
  tr.filterMap task?

end NodeAction

namespace Instance

-- A solution is looked up and handed to the node, and no cell changes.
def nodeStep (L : Library) (s : Instance) : NodeAction → Option Instance
  | .task a           => s.step L a
  | .submitSolution _ => if s.cells.monitorsMessages then some s else none
  | .skip             => if s.cells.currentPrevHash.isNone then some s else none
  | .ignore           => if s.cells.monitorsMessages then some s else none

end Instance

-- The instance at its end of the channels.
def node (L : Library) : Party Instance NodeAction TemplateDistribution TemplateDistribution where
  machine := { Init := fun s => s = .new, step := Instance.nodeStep L }
  sent s  := s.cells.outgoingMessages
  reads   := NodeAction.reads

section Node

variable {L : Library} {tr : List (Machine.Event Instance NodeAction)} {s s' : Instance} {a : NodeAction}

end Node

end BitcoinCore
