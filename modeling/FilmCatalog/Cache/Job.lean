import FilmCatalog.Cache.Key
import FilmCatalog.Error

/-!
# Background jobs

A job is a tree of the calls that it makes, each followed by what it does with
the answer. Between two calls it can be interleaved with other jobs or be cut
off. The locks that it takes are stripes of one table; it gives them back when
it ends, in whichever way.

Key definitions: `Job`, `Task`, `Counter`, `Job.lockAll`.
-/

namespace FilmCatalog

/-- What is counted, each by namespace. -/
inductive Counter where
  | hit
  | miss
  | error
  | dropped
  | timeout
  deriving DecidableEq, Repr

/-- The name under which a counter is published. -/
def Counter.name : Counter → String
  | .hit => "darkroom_cache_hit_total"
  | .miss => "darkroom_cache_miss_total"
  | .error => "darkroom_cache_error_total"
  | .dropped => "darkroom_cache_writeback_dropped_total"
  | .timeout => "darkroom_cache_writeback_timeout_total"

/-- What a backend answers to a read. -/
abbrev Fetched := Except CacheFault (Option ByteArray)

/-- What a backend answers to a change. -/
abbrev Changed := Except CacheFault Unit

/-- What a background job does. Times to live are in seconds, pauses in
milliseconds. -/
inductive Job where
  | done
  /-- Ends at once, without having finished. -/
  | panic
  | lock (stripe : Nat) (next : Job)
  | get (key : String) (next : Fetched → Job)
  | set (key : String) (value : ByteArray) (ttl : Nat) (next : Changed → Job)
  | delete (key : String) (next : Changed → Job)
  | count (c : Counter) (ns : Namespace) (next : Job)
  | sleep (ms : Nat) (next : Job)
  /-- Goes on when the gate of that name lets it through. -/
  | gate (name : String) (next : Job)

/-- Takes stripes one after the other. -/
def Job.lockAll : List Nat → Job → Job
  | [], next => next
  | s :: rest, next => .lock s (lockAll rest next)

/-- A job with the namespace that it is counted under and a label. -/
structure Task where
  ns : Namespace
  label : String
  job : Job

end FilmCatalog
