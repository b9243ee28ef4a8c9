import EpochRewards.Reward.Preference

/-!
Plans: what an analysis is asked to do and the sizes of its stages.
-/

namespace EpochRewards

/-- A named group of validators, analysed as one task. -/
structure Pool where
  name : String
  validators : List ValidatorIndex
  deriving DecidableEq

structure Plan where
  initSlot : Slot
  finalSlot : Slot
  workers : Positive
  /-- the number of validator tasks per epoch, by default that of the workers -/
  batches : Option Positive
  /-- the rows of a table that are written at once -/
  batchSize : Nat
  queueCapacity : Positive
  cacheCapacity : Positive
  fetchRetries : Nat
  retryDelay : Nat
  /-- delete the rows already stored for a slot before it is written -/
  replaceRows : Bool
  preference : ReportPreference
  pools : List Pool
  /-- the validators to analyse, all if there are none -/
  validators : List ValidatorIndex
  deriving DecidableEq

inductive RunError where
  | invalidSlotRange (initSlot finalSlot : Slot)
  | noWorkers
  | zeroBatchSize
  | cancelled
  deriving DecidableEq

def RunError.message : RunError → String
  | invalidSlotRange initSlot finalSlot =>
    s!"initial slot {initSlot} is after final slot {finalSlot}"
  | noWorkers => "at least one validator worker is required"
  | zeroBatchSize => "writer batch size must be positive"
  | cancelled => "analysis was cancelled"

open Codec Codec.Fields in
def Pool.codec : Codec Pool :=
  record true (req "name" text <| req "validators" (list word) <| none)
    (fun p => (p.name, p.validators, ()))
    fun (name, validators, _) => ⟨name, validators⟩

namespace Plan

def default : Plan where
  initSlot := 0
  finalSlot := 0
  workers := ⟨50, by decide⟩
  batches := none
  batchSize := 10000
  queueCapacity := ⟨1024, by decide⟩
  cacheCapacity := ⟨4, by decide⟩
  fetchRetries := 3
  retryDelay := 1000
  replaceRows := false
  preference := .strictlyPositive
  pools := []
  validators := []

def validate (p : Plan) : Except RunError Unit :=
  if p.finalSlot < p.initSlot then .error (.invalidSlotRange p.initSlot p.finalSlot)
  else if p.batchSize = 0 then .error .zeroBatchSize
  else .ok ()

def batchCount (p : Plan) : Positive := p.batches.getD p.workers

/-- Whether the plan covers a validator. -/
def covers (p : Plan) (v : ValidatorIndex) : Bool :=
  p.validators.isEmpty || p.validators.contains v

open Codec Codec.Fields in
/-- Members that are missing have their default, unknown ones are refused. -/
def codec : Codec Plan :=
  record true
    (dft "init_slot" word default.initSlot <|
      dft "final_slot" word default.finalSlot <|
      dft "validator_workers" positive default.workers <|
      dft "validator_batches" (nullable positive) default.batches <|
      dft "batch_size" word default.batchSize <|
      dft "writer_queue_capacity" positive default.queueCapacity <|
      dft "snapshot_cache_capacity" positive default.cacheCapacity <|
      dft "state_fetch_retries" word32 default.fetchRetries <|
      dft "state_fetch_retry_delay" word default.retryDelay <|
      dft "rewrite" bool default.replaceRows <|
      dft "external_reward_preference" ReportPreference.codec default.preference <|
      dft "pools" (list Pool.codec) default.pools <|
      dft "validator_indices" (list word) default.validators <|
      none)
    (fun p => (p.initSlot, p.finalSlot, p.workers, p.batches, p.batchSize, p.queueCapacity,
      p.cacheCapacity, p.fetchRetries, p.retryDelay, p.replaceRows, p.preference, p.pools,
      p.validators, ()))
    fun (initSlot, finalSlot, workers, batches, batchSize, queueCapacity, cacheCapacity,
      fetchRetries, retryDelay, replaceRows, preference, pools, validators, _) =>
      { initSlot, finalSlot, workers, batches, batchSize, queueCapacity, cacheCapacity,
        fetchRetries, retryDelay, replaceRows, preference, pools, validators }

end Plan

end EpochRewards
