/-
# The connect pools

`RedisConnectPool`, `MysqlConnectPool`, `MongodbConnectPool` and `MemcachedConnectPool`
(`corpc_redis/src/corpc_redis.cpp` and so on).

`take` and `put` are coroutines of one thread, switched where a connection is being opened, at
each of its operations, and where `take` waits in `waitingList_`.

A connection is known by the order in which it was opened.  `delivered` has the connections that
`take` put into a response and that were not put back, with the call of `take`; callers put back
what they got, and at most once.
-/

import Mathlib.Logic.Function.Basic
import Corpc.Basis.Run

namespace Corpc.Pool

open Function

inductive Op where
  /-- `mysql_init`, `mongoc_client_new` or `memcached_create` -/
  | create
  | serverPush
  /-- `redisConnectWithTimeout` or `mysql_real_connect` -/
  | connect
  | auth
  /-- `SELECT` of `dbIndex_` -/
  | select
  deriving DecidableEq, Repr

/-- What an operation returns: success, an error reply of the server, an object that reports an
error, or nothing. -/
inductive Outcome where
  | ok
  | errorReply
  | error (text : String)
  | null
  deriving DecidableEq, Repr

/-- How a pool opens connections: the operations of `take` and of the error branch of `put`, and the
texts that `take` fails with. -/
structure Driver where
  takeOps : List Op
  putOps : List Op
  failure : Op → Outcome → Option String
  waitFailure : String

/-- `RedisConnectPool`.  A reply is tested for being there, not for its type. -/
def RedisConnectPool (passwd : String) (dbIndex : UInt16) : Driver where
  takeOps := .connect :: ((if passwd = "" then [] else [.auth]) ++
    if dbIndex = 0 then [] else [.select])
  putOps := [.connect]
  failure
    | _, .ok => none
    | .connect, .error errstr => some ("can't connect to redis server for " ++ errstr)
    | .connect, _ => some "can't allocate redis context"
    | _, .errorReply => none
    | .auth, _ => some "auth failed"
    | _, _ => some "can't select index"
  waitFailure := "can't connect to redis server"

def MysqlConnectPool : Driver where
  takeOps := [.create, .connect]
  putOps := [.create, .connect]
  failure
    | _, .ok => none
    | .create, _ => some "can't create MYSQL object probably because not enough memory"
    | _, _ => some "can't connect to mysql server"
  waitFailure := "can't connect to mysql server"

def MongodbConnectPool : Driver where
  takeOps := [.create]
  putOps := [.create]
  failure
    | _, .ok => none
    | _, _ => some "new mongoc client fail"
  waitFailure := "can't connect to mongodb server"

def MemcachedConnectPool : Driver where
  takeOps := [.create, .serverPush]
  putOps := [.create, .serverPush]
  failure
    | _, .ok => none
    | .create, _ => some "Couldn't create memcached"
    | _, _ => some "Couldn't add memcached server"
  waitFailure := "can't connect to memcached server"

inductive ConnectPool where
  | redis (passwd : String) (dbIndex : UInt16)
  | mysql
  | mongodb
  | memcached
  deriving DecidableEq, Repr

def ConnectPool.driver : ConnectPool → Driver
  | .redis passwd dbIndex => RedisConnectPool passwd dbIndex
  | .mysql => MysqlConnectPool
  | .mongodb => MongodbConnectPool
  | .memcached => MemcachedConnectPool

structure IdleHandle where
  handle : ℕ
  time : ℕ
  deriving DecidableEq, Repr

/-- Who opens a connection: a call of `take`, or a `put` that took a call of `take` from
`waitingList_` before. -/
inductive Opener where
  | take (call : ℕ)
  | put (call : ℕ)
  deriving DecidableEq, Repr

/-- The call of `take` that waits for the connection. -/
def Opener.call : Opener → ℕ
  | .take k => k
  | .put k => k

/-- A connection that is being opened: the operations to come, the first of them in progress, and
those that succeeded. -/
structure Opening where
  owner : Opener
  rest : List Op
  inits : List Op
  deriving DecidableEq, Repr

inductive TakeState where
  | unstarted
  | running
  | delivered (handle : ℕ)
  | failed (text : String)
  deriving DecidableEq, Repr

/-- The state of a pool.  `inits` has the operations that succeeded when a connection was opened,
and `now` is the time in seconds. -/
structure State where
  realConnectCount : UInt32
  idleList : List IdleHandle
  waitingList : List ℕ
  openings : List Opening
  takes : ℕ → TakeState
  delivered : List (ℕ × ℕ)
  nextHandle : ℕ
  inits : ℕ → List Op
  now : ℕ
  aborted : Bool

namespace State

def init : State where
  realConnectCount := 0
  idleList := []
  waitingList := []
  openings := []
  takes := fun _ => .unstarted
  delivered := []
  nextHandle := 0
  inits := fun _ => []
  now := 0
  aborted := false

variable (d : Driver) (maxConnectNum : UInt32) (s : State)

/-- `response->set_handle`. -/
def deliver (k h : ℕ) : State :=
  { s with
    takes := update s.takes k (.delivered h)
    delivered := s.delivered ++ [(h, k)] }

/-- `controller->SetFailed`. -/
def fail (k : ℕ) (text : String) : State :=
  { s with takes := update s.takes k (.failed text) }

/-- `idleList_.back()` is delivered, if there is one. -/
def takeBack (k : ℕ) : Option State :=
  s.idleList.getLast?.map fun i => { s with idleList := s.idleList.dropLast }.deliver k i.handle

/-- `take` after `co_yield_ct`. -/
def resumeTake (k : ℕ) : State := (s.takeBack k).getD (s.fail k d.waitFailure)

/-- All coroutines of `waitingList_` are resumed. -/
def resumeAll : State := s.waitingList.foldl (resumeTake d) { s with waitingList := [] }

/-- `take` up to its end or the first suspension. -/
def take (k : ℕ) : Option State :=
  if s.takes k = .unstarted then
    match s.takeBack k with
    | some s => some s
    | none =>
      let s := { s with takes := update s.takes k .running }
      if s.realConnectCount < maxConnectNum then
        some { s with
          realConnectCount := s.realConnectCount + 1
          openings := s.openings ++ [⟨.take k, d.takeOps, []⟩] }
      else some { s with waitingList := s.waitingList ++ [k] }
  else none

def unlend (h : ℕ) : State := { s with delivered := s.delivered.eraseP (·.1 = h) }

def unopen (owner : Opener) : State :=
  { s with openings := s.openings.eraseP (·.owner = owner) }

/-- `put` of a connection without error. -/
def putIdle (h : ℕ) : State :=
  let s := { s with idleList := s.idleList ++ [IdleHandle.mk h s.now] }
  match s.waitingList with
  | [] => s
  | k :: rest =>
    if s.idleList.length = 1 then { s with waitingList := rest }.resumeTake d k
    else { s with aborted := true }

/-- `put` of a connection with an error, up to the reconnection. -/
def putError : State :=
  let s := { s with realConnectCount := s.realConnectCount - 1 }
  match s.waitingList with
  | [] => s
  | k :: rest =>
    if s.idleList = [] then
      if s.realConnectCount < maxConnectNum then
        { s with
          waitingList := rest
          realConnectCount := s.realConnectCount + 1
          openings := s.openings ++ [⟨.put k, d.putOps, []⟩] }
      else s
    else { s with aborted := true }

/-- `put` up to its end or the reconnection. -/
def put (h : ℕ) (error : Bool) : Option State :=
  (s.delivered.find? (·.1 = h)).map fun _ =>
    let s := s.unlend h
    if s.idleList.length < maxConnectNum.toNat then
      if error then s.putError d maxConnectNum else s.putIdle d h
    else if s.waitingList = [] then { s with realConnectCount := s.realConnectCount - 1 }
    else { s with aborted := true }

def opened (owner : Opener) (inits : List Op) : State :=
  let h := s.nextHandle
  let s := { s with nextHandle := h + 1, inits := update s.inits h inits }
  match owner with
  | .take k => s.deliver k h
  | .put k => { s with idleList := s.idleList ++ [IdleHandle.mk h s.now] }.resumeTake d k

def refused (owner : Opener) (text : String) : State :=
  let s := { s with realConnectCount := s.realConnectCount - 1 }
  match owner with
  | .take k => (s.fail k text).resumeAll d
  | .put k => (s.resumeTake d k).resumeAll d

def returns (owner : Opener) (outcome : Outcome) : Option State :=
  (s.openings.find? (·.owner = owner)).bind fun o =>
    let s := s.unopen owner
    match o.rest with
    | [] => none
    | op :: rest =>
      match d.failure op outcome with
      | some text => some (s.refused d owner text)
      | none =>
        let inits := if outcome = .ok then o.inits ++ [op] else o.inits
        if rest = [] then some (s.opened d owner inits)
        else some { s with openings := s.openings ++ [⟨owner, rest, inits⟩] }

/-- The loop of `clearIdleRoutine`. -/
def clearLoop (now : ℕ) : List IdleHandle → UInt32 → List IdleHandle × UInt32
  | [], count => ([], count)
  | i :: rest, count =>
    if i.time + 60 < now then clearLoop now rest (count - 1) else (i :: rest, count)

/-- `clearIdleRoutine` wakes up. -/
def clearIdle : State :=
  let r := clearLoop s.now s.idleList s.realConnectCount
  { s with idleList := r.1, realConnectCount := r.2 }

end State

inductive Action where
  | take (call : ℕ)
  | put (handle : ℕ) (error : Bool)
  | returns (owner : Opener) (outcome : Outcome)
  | clearIdle
  | tick (seconds : ℕ)
  deriving DecidableEq, Repr

def State.step (d : Driver) (maxConnectNum : UInt32) (s : State) (a : Action) : Option State :=
  if s.aborted then none
  else
    match a with
    | .take k => s.take d maxConnectNum k
    | .put h error => s.put d maxConnectNum h error
    | .returns owner outcome => s.returns d owner outcome
    | .clearIdle => some s.clearIdle
    | .tick n => some { s with now := s.now + n }

end Corpc.Pool
