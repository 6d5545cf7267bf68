import Mathlib.Data.List.Basic

/-! # The adapter counters of the Durable Object -/
namespace SlatedbCloudflare.Perf

/-- The fields of `PerfCounters`. -/
inductive PerfCounter
  | cachePartReads
  | cachePartHits
  | cachePartMisses
  | cacheRequestedBytes
  | cacheLoadedBytes
  | cacheReturnedBytes
  | cachePartWrites
  | cacheWrittenBytes
  | cacheHeadReads
  | cacheHeadHits
  | cacheHeadMisses
  | cacheHeadWrites
  | cacheErrors
  | doKvGets
  | doKvPuts
  | doKvDeletes
  | doKvDeleteAlls
  | doKvLists
  | doKvRowsRead
  | doKvRowsWritten
  | r2Gets
  | r2Heads
  | r2Puts
  | r2Lists
  | r2Deletes
  | r2ReadBytes
  | r2WrittenBytes
  | r2MultipartUploads
  | r2MultipartParts
  | r2MultipartCompletes
  | r2Errors
  deriving DecidableEq

abbrev Increment := PerfCounter × ℕ

end SlatedbCloudflare.Perf
