/- Worker threads.
   Whether a request may be split over a pool of threads, how large its parts may be, and which
   pool it runs in. Without a pool of its own a request uses the ambient one. -/

set_option autoImplicit false
set_option relaxedAutoImplicit false

namespace Boosting

inductive Parallelism where
  | sequential
  | parallel
deriving DecidableEq

namespace Parallelism

def text : Parallelism → String
  | sequential => "Sequential"
  | parallel => "Parallel"

def isParallel (p : Parallelism) : Bool :=
  p = parallel

/-- The setting for a requested number of threads: one thread is sequential, and so is the ambient
pool, asked for by zero, if it has a single thread. -/
def ofThreads (ambient threads : Nat) : Parallelism :=
  if threads = 1 || (threads = 0 && ambient = 1) then sequential else parallel

/-- Visits items in the order in which the pool takes them; sequential work takes them in order. -/
def visit {α β : Type} (p : Parallelism) (order : List α → List α) (step : β → α → β) (start : β)
    (items : List α) : β :=
  (if p.isParallel then order items else items).foldl step start

end Parallelism

structure Workers where
  parallelism : Parallelism
  /-- Threads of the pool the request runs in. -/
  threads : Nat
deriving DecidableEq

namespace Workers

def ambientThreads : Nat := 4

/-- The workers for a requested number of threads: the ambient pool for zero and one, else a
dedicated pool of exactly that size. -/
def ofThreads (ambient threads : Nat) : Workers :=
  { parallelism := .ofThreads ambient threads
    threads := if threads ≤ 1 then ambient else threads }

def poolSize? (w : Workers) : Option Nat :=
  if w.parallelism.isParallel then some w.threads else none

end Workers

structure WorkerParams where
  /-- Requested threads: zero for the ambient pool, one for none. -/
  threads : Nat
  minChunk : Nat
deriving DecidableEq

inductive WorkerParamsError where
  | invalidMinChunk (minChunk : Nat)
deriving DecidableEq

def WorkerParamsError.message : WorkerParamsError → String
  | invalidMinChunk minChunk => s!"min_chunk_samples must be >= 1, got {minChunk}"

namespace WorkerParams

def standard : WorkerParams := ⟨0, 16384⟩

def sequential : WorkerParams := { standard with threads := 1 }

def withThreads (p : WorkerParams) (threads : Nat) : WorkerParams :=
  { p with threads }

def withMinChunk (p : WorkerParams) (minChunk : Nat) : WorkerParams :=
  { p with minChunk }

def validate (p : WorkerParams) : Except WorkerParamsError Unit :=
  if p.minChunk = 0 then .error (.invalidMinChunk p.minChunk) else .ok ()

def install {α : Type} (p : WorkerParams) (ambient : Nat) (request : Workers → α) :
    Except WorkerParamsError α :=
  match p.validate with
  | .error e => .error e
  | .ok () => .ok (request (.ofThreads ambient p.threads))

end WorkerParams

end Boosting
