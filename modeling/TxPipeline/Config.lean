import TxPipeline.Error

/-!
# Configuration

How many workers each stage has and how many jobs may wait for them.
-/

namespace TxPipeline

/-- The sizes of the two worker pools and of their job queues. -/
structure Config where
  prefetchWorkers : Nat
  processWorkers : Nat
  /-- How many jobs a queue holds; with 0 a job passes from hand to hand. -/
  queueDepth : Nat
deriving DecidableEq, Inhabited

namespace Config

/-- How many jobs a queue holds unless told otherwise. -/
def defaultQueueDepth : Nat := 1024

/-- One worker per stage and core; four where the number of cores is not known. -/
def ofCores (cores : Option Nat) : Config :=
  ⟨cores.getD 4, cores.getD 4, defaultQueueDepth⟩

/-- The same with another number of prefetch workers. -/
def withPrefetchWorkers (config : Config) (n : Nat) : Config := { config with prefetchWorkers := n }

/-- The same with another number of process workers. -/
def withProcessWorkers (config : Config) (n : Nat) : Config := { config with processWorkers := n }

def withQueueDepth (config : Config) (n : Nat) : Config := { config with queueDepth := n }

def workers (config : Config) : Stage → Nat
  | .prefetch => config.prefetchWorkers
  | .process => config.processWorkers

/-- Refuses a stage without workers, the prefetch stage first. -/
def validate (config : Config) : Except Error Unit :=
  if config.prefetchWorkers = 0 then
    .error (.invalidConfig "prefetch_workers must be at least 1")
  else if config.processWorkers = 0 then
    .error (.invalidConfig "process_workers must be at least 1")
  else .ok ()

end Config

end TxPipeline
