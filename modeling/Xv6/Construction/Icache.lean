import Xv6.Construction.Fs
import Xv6.Library.EventRun

namespace Xv6
open Library

/-- The inodes on disk as the buffer cache shows them, and the inode cache. -/
structure Icache where
  ninodes : Nat
  dinode : Nat → Dinode
  inode : Fin NINODE → Inode

namespace Icache

/-- A write to the buffer of an inode block. -/
def setDinode (icache : Icache) (inum : Nat) (dinode : Dinode) : Icache :=
  {icache with dinode := Function.update icache.dinode inum dinode}

def setInode (icache : Icache) (ip : Fin NINODE) (inode : Inode) : Icache :=
  {icache with inode := Function.update icache.inode ip inode}

def copy (icache : Icache) (ip : Fin NINODE) : Dinode := (icache.inode ip).dinode

def setCopy (icache : Icache) (ip : Fin NINODE) (dinode : Dinode) : Icache :=
  icache.setInode ip {icache.inode ip with dinode}

/-- The section of `iget` under `icache.lock`. -/
def iget (icache : Icache) (inum : Nat) : Option (Fin NINODE × Icache) :=
  match (List.finRange NINODE).find? fun ip => 0 < (icache.inode ip).ref ∧ (icache.inode ip).inum = inum with
  | some ip => some (ip, icache.setInode ip {icache.inode ip with ref := (icache.inode ip).ref + 1})
  | none =>
    match (List.finRange NINODE).find? fun ip => (icache.inode ip).ref = 0 with
    | none => none
    | some empty => some (empty, icache.setInode empty {icache.inode empty with inum, ref := 1, valid := false})

/-- The function `ilock` reads the inode under its sleep lock if the entry is not valid. -/
def load (icache : Icache) (ip : Fin NINODE) : Option Icache :=
  if (icache.inode ip).valid then some icache
  else if (icache.dinode (icache.inode ip).inum).type = 0 then none
  else some (icache.setInode ip
    {icache.inode ip with valid := true, dinode := icache.dinode (icache.inode ip).inum})

def iupdate (icache : Icache) (ip : Fin NINODE) : Icache := icache.setDinode (icache.inode ip).inum (icache.copy ip)

/-- The function `itrunc` clears the block numbers and the size in memory. The free map is not part of this state. -/
def truncate (icache : Icache) (ip : Fin NINODE) : Icache :=
  icache.setCopy ip {icache.copy ip with size := 0, addrs := fun _ => 0}

def setRef (icache : Icache) (ip : Fin NINODE) (ref : Nat) : Icache :=
  icache.setInode ip {icache.inode ip with ref}

end Icache

/-- The process in `iput` is before one of these steps. The check, the drop and each write to a buffer is one section. -/
inductive IputPlace where
  | check
  | trunc
  | truncUpdate
  | retype
  | update
  | drop
  | done
  deriving DecidableEq

/-- The arguments of `create` that the new inode gets. -/
structure Creation where
  type : BitVec 16
  major : BitVec 16
  minor : BitVec 16
  deriving DecidableEq

/-- A process in `create` is at one of these places. It scans the inodes, has claimed one on disk, has its cache entry,
has the sleep lock, has read it, has set its fields or has written it. -/
inductive CreatePlace where
  | idle
  | scan (new : Creation) (inum : Nat)
  | claimed (new : Creation) (inum : Nat)
  | referenced (new : Creation) (ip : Fin NINODE)
  | locked (new : Creation) (ip : Fin NINODE)
  | ready (new : Creation) (ip : Fin NINODE)
  | filled (new : Creation) (ip : Fin NINODE)
  | updated (new : Creation) (ip : Fin NINODE)
  deriving DecidableEq

/-- One process drops its reference to the entry `ip`, and any number of processes create files. -/
structure IcacheSystem where
  icache : Icache
  lock : Fin NINODE → Option Nat
  ip : Fin NINODE
  iput : IputPlace
  create : Nat → CreatePlace

/-- A process calls `create`, goes one section further, or returns and may drop its reference. -/
inductive IcacheEvent where
  | iput
  | call (pid : Nat) (new : Creation)
  | create (pid : Nat)
  | leave (pid : Nat) (put : Bool)
  deriving DecidableEq

/-- A process that waits for a lock or has nothing to do is blocked. -/
inductive IcacheHalt where
  | panic (reason : FsPanic)
  | blocked
  deriving DecidableEq

namespace IcacheSystem

def moveIput (system : IcacheSystem) (icache : Icache) (iput : IputPlace) : IcacheSystem := {system with icache, iput}

def moveCreate (system : IcacheSystem) (icache : Icache) (pid : Nat) (place : CreatePlace) : IcacheSystem :=
  {system with icache, create := Function.update system.create pid place}

def setLock (system : IcacheSystem) (ip : Fin NINODE) (holder : Option Nat) : IcacheSystem :=
  {system with lock := Function.update system.lock ip holder}

/-- The next section of `iput`. -/
def stepIput (system : IcacheSystem) : Except IcacheHalt IcacheSystem :=
  let icache := system.icache
  let ip := system.ip
  match system.iput with
  | .check =>
    if (icache.inode ip).ref = 1 ∧ (icache.inode ip).valid ∧ (icache.copy ip).nlink = 0 then
      .ok (system.moveIput icache .trunc)
    else .ok (system.moveIput (icache.setRef ip ((icache.inode ip).ref - 1)) .done)
  | .trunc => .ok (system.moveIput (icache.truncate ip) .truncUpdate)
  | .truncUpdate => .ok (system.moveIput (icache.iupdate ip) .retype)
  | .retype => .ok (system.moveIput (icache.setCopy ip {icache.copy ip with type := 0}) .update)
  | .update => .ok (system.moveIput (icache.iupdate ip) .drop)
  | .drop =>
    .ok (system.moveIput
      (icache.setInode ip {icache.inode ip with ref := (icache.inode ip).ref - 1, valid := false}) .done)
  | .done => .error .blocked

/-- The next section of `create`. The loop of `ialloc` looks at one inode in each section. -/
def stepCreate (system : IcacheSystem) (pid : Nat) : Except IcacheHalt IcacheSystem :=
  let icache := system.icache
  match system.create pid with
  | .scan new inum =>
    if icache.ninodes ≤ inum then .error (.panic .noFreeInode)
    else if (icache.dinode inum).type = 0 then
      .ok (system.moveCreate (icache.setDinode inum {Dinode.zero with type := new.type}) pid (.claimed new inum))
    else .ok (system.moveCreate icache pid (.scan new (inum + 1)))
  | .claimed new inum =>
    match icache.iget inum with
    | none => .error (.panic .noCacheEntry)
    | some (ip, next) => .ok (system.moveCreate next pid (.referenced new ip))
  | .referenced new ip =>
    if (icache.inode ip).ref < 1 then .error (.panic .unlocked)
    else if system.lock ip = none then .ok ((system.moveCreate icache pid (.locked new ip)).setLock ip (some pid))
    else .error .blocked
  | .locked new ip =>
    match icache.load ip with
    | none => .error (.panic .noType)
    | some next => .ok (system.moveCreate next pid (.ready new ip))
  | .ready new ip =>
    .ok (system.moveCreate
      (icache.setCopy ip {icache.copy ip with major := new.major, minor := new.minor, nlink := 1}) pid (.filled new ip))
  | .filled new ip => .ok (system.moveCreate (icache.iupdate ip) pid (.updated new ip))
  | .idle | .updated _ _ => .error .blocked

/-- The callers of `create` pass `T_DIR`, `T_FILE` or `T_DEV`. -/
def step (system : IcacheSystem) : IcacheEvent → Except IcacheHalt IcacheSystem
  | .iput => system.stepIput
  | .call pid new =>
    if system.create pid = .idle ∧ (new.type = T_DIR ∨ new.type = T_FILE ∨ new.type = T_DEV) then
      .ok (system.moveCreate system.icache pid (.scan new 1))
    else .error .blocked
  | .create pid => system.stepCreate pid
  | .leave pid put =>
    match system.create pid with
    | .updated _ ip =>
      let icache := if put then system.icache.setRef ip ((system.icache.inode ip).ref - 1) else system.icache
      .ok ((system.moveCreate icache pid .idle).setLock ip none)
    | _ => .error .blocked

end IcacheSystem
end Xv6
