import Xv6.Library.Circular
import Xv6.Library.EventRun
import Xv6.Construction.Layout

namespace Xv6
open Library

/-- The size of the disk block cache. -/
def NBUF : Nat := MAXOPBLOCKS * 3

/-- A cached copy of a disk block. The flags are `B_VALID` and `B_DIRTY`.
The holder is the process that has locked the sleep lock. -/
structure Buf where
  valid : Bool
  dirty : Bool
  dev : BitVec 32
  blockno : BlockNo
  holder : Option Nat
  refcnt : Nat
  data : Block

def Buf.zero : Buf := ⟨false, false, 0, 0, none, 0, 0⟩

/-- The nodes of the list are the head and the buffers. -/
abbrev BufNode := Option (Fin NBUF)

/-- The buffers are linked through `prev` and `next`. The link `head.next` leads to the most recently used one. -/
structure Bcache where
  buf : Fin NBUF → Buf
  next : BufNode → BufNode
  prev : BufNode → BufNode

/-- These are the panics of the buffer cache. -/
inductive BufPanic where
  | noBuffers
  | brelse
  deriving DecidableEq

def BufPanic.message : BufPanic → String
  | .noBuffers => "bget: no buffers"
  | .brelse => "brelse"

/-- A scan that never meets the head is endless. A blocked event is not possible at the place of its process. -/
inductive BufHalt where
  | blocked
  | panic (reason : BufPanic)
  | endless
  deriving DecidableEq

/-- The buffer that `bget` returns had the block or has been recycled for it. -/
inductive Bget where
  | cached (b : Fin NBUF)
  | recycled (b : Fin NBUF)

def Bget.buf : Bget → Fin NBUF
  | .cached b => b
  | .recycled b => b

namespace Bcache

def setBuf (cache : Bcache) (b : Fin NBUF) (buf : Buf) : Bcache :=
  {cache with buf := Function.update cache.buf b buf}

/-- The four assignments that link a buffer behind the head. -/
def link (cache : Bcache) (b : Fin NBUF) : Bcache :=
  let next := Function.update cache.next (some b) (cache.next none)
  let prev := Function.update cache.prev (some b) none
  let prev := Function.update prev (next none) (some b)
  let next := Function.update next none (some b)
  {cache with next, prev}

/-- The two assignments that take a buffer out of the list. -/
def unlink (cache : Bcache) (b : Fin NBUF) : Bcache :=
  let prev := Function.update cache.prev (cache.next (some b)) (cache.prev (some b))
  let next := Function.update cache.next (prev (some b)) (cache.next (some b))
  {cache with next, prev}

/-- The list starts with the head alone, and each buffer is linked behind it. -/
def binit : Bcache :=
  (List.finRange NBUF).foldl link {buf := fun _ => .zero, next := fun _ => none, prev := fun _ => none}

def hasBlock (cache : Bcache) (dev : BitVec 32) (blockno : BlockNo) (b : Fin NBUF) : Bool :=
  (cache.buf b).dev = dev ∧ (cache.buf b).blockno = blockno

def unused (cache : Bcache) (b : Fin NBUF) : Bool := (cache.buf b).refcnt = 0 ∧ (cache.buf b).dirty = false

/-- The section of `bget` that holds `bcache.lock`. -/
def bget (cache : Bcache) (dev : BitVec 32) (blockno : BlockNo) : Except BufHalt (Bget × Bcache) :=
  match search cache.next (fun node => node.all (cache.hasBlock dev blockno)) (NBUF + 1) (cache.next none) with
  | none => .error .endless
  | some (some b) =>
    .ok (.cached b, cache.setBuf b {cache.buf b with refcnt := (cache.buf b).refcnt + 1})
  | some none =>
    match search cache.prev (fun node => node.all cache.unused) (NBUF + 1) (cache.prev none) with
    | none => .error .endless
    | some (some b) =>
      .ok (.recycled b,
        cache.setBuf b {cache.buf b with dev, blockno, valid := false, dirty := false, refcnt := 1})
    | some none => .error (.panic .noBuffers)

/-- The loop of `acquiresleep` ends when the lock is free. -/
def acquiresleep (cache : Bcache) (b : Fin NBUF) (pid : Nat) : Except BufHalt Bcache :=
  if (cache.buf b).holder = none then .ok (cache.setBuf b {cache.buf b with holder := some pid})
  else .error .blocked

def releasesleep (cache : Bcache) (b : Fin NBUF) : Bcache := cache.setBuf b {cache.buf b with holder := none}

/-- The section of `brelse` that holds `bcache.lock`. -/
def brelse (cache : Bcache) (b : Fin NBUF) : Bcache :=
  let cache := cache.setBuf b {cache.buf b with refcnt := (cache.buf b).refcnt - 1}
  if (cache.buf b).refcnt = 0 then (cache.unlink b).link b else cache

end Bcache

/-- A process is inside `bget` after its section or inside `brelse` before its section. -/
inductive BufPlace where
  | ready
  | acquiring (b : Fin NBUF)
  | releasing (b : Fin NBUF)
  deriving DecidableEq

/-- The buffer that a process has a reference to without its lock. -/
def BufPlace.moving : BufPlace → Option (Fin NBUF)
  | .ready => none
  | .acquiring b => some b
  | .releasing b => some b

structure BcacheSystem where
  cache : Bcache
  place : Nat → BufPlace

/-- The holder of a buffer can change its flags and its contents in any way. -/
inductive BufEvent where
  | bget (pid : Nat) (dev : BitVec 32) (blockno : BlockNo)
  | acquiresleep (pid : Nat)
  | change (pid : Nat) (b : Fin NBUF) (valid dirty : Bool) (data : Block)
  | releasesleep (pid : Nat) (b : Fin NBUF)
  | brelse (pid : Nat) (b : Fin NBUF)

namespace BcacheSystem

def initial : BcacheSystem := ⟨.binit, fun _ => .ready⟩

def moveTo (system : BcacheSystem) (cache : Bcache) (pid : Nat) (place : BufPlace) : BcacheSystem :=
  ⟨cache, Function.update system.place pid place⟩

/-- Each event continues its process from the place where that process stands.
A process changes and releases only the buffers that it holds. -/
def step (system : BcacheSystem) : BufEvent → Except BufHalt BcacheSystem
  | .bget pid dev blockno =>
    if dev ≠ 0 ∧ system.place pid = .ready then
      (system.cache.bget dev blockno).map fun (result, cache) => system.moveTo cache pid (.acquiring result.buf)
    else .error .blocked
  | .acquiresleep pid =>
    match system.place pid with
    | .acquiring b => (system.cache.acquiresleep b pid).map fun cache => system.moveTo cache pid .ready
    | _ => .error .blocked
  | .change pid b valid dirty data =>
    if system.place pid = .ready ∧ (system.cache.buf b).holder = some pid then
      .ok {system with cache := system.cache.setBuf b {system.cache.buf b with valid, dirty, data}}
    else .error .blocked
  | .releasesleep pid b =>
    if system.place pid = .ready then
      if (system.cache.buf b).holder = none then .error (.panic .brelse)
      else if (system.cache.buf b).holder = some pid then
        .ok (system.moveTo (system.cache.releasesleep b) pid (.releasing b))
      else .error .blocked
    else .error .blocked
  | .brelse pid b =>
    if system.place pid = .releasing b then .ok (system.moveTo (system.cache.brelse b) pid .ready)
    else .error .blocked

end BcacheSystem

/-- The position of the last release of a buffer in a run, or zero. -/
def lastRelease (b : Fin NBUF) (events : List BufEvent) : Nat :=
  events.zipIdx.foldl (fun last entry =>
    match entry.1 with
    | .brelse _ released => if released = b then entry.2 + 1 else last
    | _ => last) 0

end Xv6
