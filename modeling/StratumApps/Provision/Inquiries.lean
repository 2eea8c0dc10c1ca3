import StratumApps.JobDeclaratorClient.Inquiries
import StratumApps.Provision.Client

open Sv2 Handler StratumCore

namespace BitcoinCore

-- The template that the node is asked about, or that it is to make a block of.
def NodeAction.named : NodeAction → Option TemplateId
  | task (.requestTransactionData msg) => some msg.templateId
  | submitSolution msg                 => some msg.templateId
  | _                                  => none

end BitcoinCore

namespace Provision

open BitcoinCore Coupled Jdc.System

variable {C : StratumCore} {cfg : Jdc.Config} {L : Library} {tr : List (Event C)} {s : System C}

-- What the node takes for a template names one that the node has announced, and as long as that has not
-- gone stale, the node knows it.
structure Known (L : Library) (tr : List (Event C)) (e : Event C) (id : TemplateId) : Prop where
  announced : ∃ m, .newTemplate m ∈ e.pre.right.cells.outgoingMessages ∧ m.templateId = id
  known     : ¬Instance.MadeStale (nodeOf tr) id → e.pre.right.cells.Knows L id

-- Channels for which every share is a block.
namespace Found

open StratumCore.Reference Offered

variable {c : Channel NewExtendedMiningJob} {share : SubmitSharesExtended}

def validateShare (c : Channel NewExtendedMiningJob) (share : SubmitSharesExtended) :
    Except ShareValidationError ShareValidationResult × Channel NewExtendedMiningJob :=
  match c.jobs.find? (·.getJobId = share.jobId) with
  | some job => (.ok (.blockFound 0 job.getTemplateId []), c)
  | none     => (.error .invalidJobId, c)

theorem validateShare_eq : (validateShare c share).2 = c := by
  rw [validateShare]
  split <;> rfl

theorem validateShare_job {r : ShareValidationResult} (h : (validateShare c share).1 = .ok r) :
    ∃ job, extendedChannels.Accepts c job ∧ job.getJobId = share.jobId ∧
      r = .blockFound 0 job.getTemplateId [] := by
  rw [validateShare] at h
  split at h
  case h_2        => cases h
  case h_1 job hj =>
    cases h
    have hm := List.mem_of_find?_eq_some hj
    refine ⟨job, ?_, by simpa using List.find?_some hj, rfl⟩
    simp only [Channel.jobs, List.mem_append, Option.mem_toList, List.mem_map] at hm
    refine hm.imp_right fun h => ?_
    obtain ⟨e, he, hej⟩ := h
    exact ⟨e.1, hej ▸ AList.mem_lookup_iff.mpr he⟩

def core : StratumCore where
  __       := reference
  extended := { extendedChannels with validateShare := validateShare }

theorem core_lawful : core.Lawful where
  __       := reference_lawful
  extended := {
    __                      := reference_lawful.extended
    validateShare c share   := by
      have hc : (core.extended.validateShare c share).2 = c := validateShare_eq
      rw [hc]
      exact .refl _ c
    validateShareJob c share r h :=
      have ⟨job, hj, hid, _⟩ := validateShare_job h
      ⟨job, hj, hid⟩
    prefixValidateShare c share := by
      have hc : (core.extended.validateShare c share).2 = c := validateShare_eq
      rw [hc] }

def start : System core where
  left       := { manager := .new ⟨[], 4, 0⟩ [], status := .running, sent := [] }
  right      := .new
  leftTaken  := 0
  rightTaken := 0

theorem start_init {cfg : Jdc.Config} {L : Library} : (machine core cfg L).Init start := by
  refine ⟨?_, rfl, rfl, rfl⟩
  constructor <;> rfl

def shared : Machine (System core) (Jdc.Action ⊕ NodeAction) :=
  machine core (Jdc.Sample.config [] []) library

end Found

end Provision
