import BengaliTts.Jobs

/-!
# The stores the two programs share

Gateway and worker never talk to each other directly.  They share PostgreSQL
(the jobs table and the advisory locks), the Redis queue and the bucket.  A
`World` is the content of these stores.

Some fields are histories that no code reads: `born` lists every row that a
submission has inserted, committed or not, with the handler that inserted it,
and `everCommitted` the ids of those that were committed; `addCalls` and `added`
list the calls of `queue.add` and those that took effect; `synthesized` lists
the recordings the engine has returned.
-/

namespace BengaliTts

open Lib

abbrev Bytes := List UInt8

structure World where
  /-- The database clock. -/
  now : Nat
  /-- The committed rows of the jobs table. -/
  jobs : List Job
  /-- History: every inserted row and the handler that inserted it. -/
  born : List (Nat × Job)
  /-- History: the ids of the rows that were committed. -/
  everCommitted : List Uuid
  /-- The transaction that holds an advisory lock, by the handler it belongs to. -/
  locks : Int → Option Nat
  /-- The entries that `getJobCounts` counts: waiting, active, delayed, prioritized. -/
  queue : List Uuid
  /-- History: the job ids `queue.add` was called with. -/
  addCalls : List Uuid
  /-- History: the job ids for which `queue.add` took effect. -/
  added : List Uuid
  /-- The bucket: object keys and their bytes. -/
  bucket : String → Option Bytes
  /-- History: texts and the recordings that the engine returned for them. -/
  synthesized : List (String × Bytes)

/-- The empty stores. -/
def World.empty : World where
  now := 0
  jobs := []
  born := []
  everCommitted := []
  locks := fun _ => none
  queue := []
  addCalls := []
  added := []
  bucket := fun _ => none
  synthesized := []

/-- The gateway's settings; the schema admits positive integers only. -/
structure Config where
  TTS_MAX_TEXT_LENGTH : Nat
  POLL_INTERVAL_MS : Nat
  TTS_RATE_LIMIT_PER_MINUTE : Nat
  TTS_PENDING_CAP : Nat
  TTS_QUEUE_CAPACITY : Nat
  TTS_JOB_ATTEMPTS : Nat
  maxTextLength_pos : 0 < TTS_MAX_TEXT_LENGTH
  pollInterval_pos : 0 < POLL_INTERVAL_MS
  rateLimit_pos : 0 < TTS_RATE_LIMIT_PER_MINUTE
  pendingCap_pos : 0 < TTS_PENDING_CAP
  queueCapacity_pos : 0 < TTS_QUEUE_CAPACITY
  jobAttempts_pos : 0 < TTS_JOB_ATTEMPTS

/-- The defaults of the settings schema meet their own checks. -/
def defaultConfig : Config where
  TTS_MAX_TEXT_LENGTH := 1000
  POLL_INTERVAL_MS := 2000
  TTS_RATE_LIMIT_PER_MINUTE := 30
  TTS_PENDING_CAP := 10
  TTS_QUEUE_CAPACITY := 100
  TTS_JOB_ATTEMPTS := 2
  maxTextLength_pos := by decide
  pollInterval_pos := by decide
  rateLimit_pos := by decide
  pendingCap_pos := by decide
  queueCapacity_pos := by decide
  jobAttempts_pos := by decide

/--
What the two programs are run with: the gateway's settings, PostgreSQL's
`hashtext`, and the worker's time limit as its error message prints it.
-/
structure Deps where
  config : Config
  hashtext : String → Int
  timeoutText : String

end BengaliTts
