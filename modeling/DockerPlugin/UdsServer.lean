import DockerPlugin.Library.Octets
import Mathlib.Logic.Function.Basic
import Mathlib.Algebra.Order.Ring.Int

namespace DockerPlugin
open Octets

/-- Whose an open descriptor is: the listening socket's, or that of one call of `accept4`. -/
inductive Owner
  | listener
  | client (serial : Nat)
  deriving DecidableEq, Repr

/-- What a server and its kernel do, in the order in which it happens. A close names whose the
descriptor was at that moment, and nobody if it was not open. -/
inductive ServerEvent
  | fdSet (fd : Int)
  | fdIsset (fd : Int)
  | accepted (serial : Nat) (fd : Int)
  | onConnect (serial : Nat)
  | read (serial : Nat)
  | dropped (serial : Nat)
  | onDisconnect (serial : Nat)
  | closed (fd : Int) (owner : Option Owner)
  deriving DecidableEq, Repr

/-- The open descriptors of a process, the number of connections accepted, and the history. -/
structure Process where
  descriptors : Int → Option Owner := fun _ => none
  accepts : Nat := 0
  history : List ServerEvent := []

namespace Process

def note (p : Process) (events : List ServerEvent) : Process := { p with history := p.history ++ events }

def opened (p : Process) (fd : Int) (owner : Owner) : Process :=
  { p with descriptors := Function.update p.descriptors fd (some owner) }

/-- `accept4` giving a new descriptor. -/
def accept (p : Process) (fd : Int) : Process where
  descriptors := Function.update p.descriptors fd (some (.client p.accepts))
  accepts := p.accepts + 1
  history := p.history ++ [.accepted p.accepts fd]

/-- `::close`. -/
def close (p : Process) (fd : Int) : Process where
  descriptors := Function.update p.descriptors fd none
  accepts := p.accepts
  history := p.history ++ [.closed fd (p.descriptors fd)]

end Process

/-- An object of a class derived from `uds_connection`: which accepted connection it is for, the
base part and its own members. -/
structure SocketObject (κ : Type) where
  serial : Nat
  mSocket : Int
  self : κ

/-- A class of connections as a server uses it: the members that `create_connection` starts with,
or none where it gives a null pointer, and what `on_read` makes of them, together with how often it
calls `close()`. -/
structure ConnectionClass (κ : Type) where
  createConnection : Int → Option κ
  onRead : Bytes → κ → Nat × κ

namespace SocketObject
variable {κ : Type}

/-- `uds_connection::close`. -/
def close (con : SocketObject κ) (p : Process) : SocketObject κ × Process :=
  ({ con with mSocket := -1 }, if 0 ≤ con.mSocket then p.close con.mSocket else p)

/-- `uds_connection::~uds_connection`. -/
def destroy (con : SocketObject κ) (p : Process) : Process := if 0 ≤ con.mSocket then p.close con.mSocket else p

/-- Several calls of `close` one after the other. -/
def closes : Nat → SocketObject κ → Process → SocketObject κ × Process
  | 0, con, p => (con, p)
  | times + 1, con, p => closes times (con.close p).1 (con.close p).2

/-- `on_read` of an object: its first call of `close` is the decision to drop the connection. -/
def onRead (cls : ConnectionClass κ) (data : Bytes) (con : SocketObject κ) (p : Process) : SocketObject κ × Process :=
  let (times, self) := cls.onRead data con.self
  closes times { con with self } (if times = 0 then p else p.note [.dropped con.serial])

/-- `on_disconnect`, and the last reference going away after it. -/
def release (con : SocketObject κ) (p : Process) : Process := con.destroy (p.note [.onDisconnect con.serial])

end SocketObject

/-- What `recv` gives: some bytes, none at the end of the stream, or an error. -/
inductive RecvResult
  | received (data : Bytes)
  | fails (errno : Nat)
  deriving DecidableEq, Repr

def eagain : Nat := 11
def ewouldblock : Nat := 11
def eintr : Nat := 4

/-- What `select` gives: an error, the end of the time, or for every descriptor whether it is
readable. -/
inductive SelectResult
  | fails (errno : Int)
  | expires
  | leaves (ready : Int → Bool)

/-- The surroundings of one call of `run`: the results of `select` and of `accept4`, and those of
the calls of `recv` one after the other. -/
structure Round where
  select : SelectResult
  accept : Int
  recvs : Nat → RecvResult

structure UdsServer (κ : Type) where
  mSocket : Int := -1
  mConnections : List (SocketObject κ) := []
  process : Process := {}

inductive BindError
  | invalidArgument
  | system (errno : Nat)
  deriving DecidableEq, Repr

/-- `sizeof(addr.sun_path)`. -/
def sunPathSize : Nat := 108

namespace UdsServer
variable {κ : Type}

/-- `bind(path, ec)`, with what `socket` answers, and `bind` and `listen` after it. -/
def bind (s : UdsServer κ) (path : Bytes) (socket : Except Nat Int) (listen : Option Nat) :
    UdsServer κ × Option BindError :=
  if path.length > sunPathSize then (s, some .invalidArgument)
  else
    match socket with
    | .error errno => (s, some (.system errno))
    | .ok fd =>
      let p := s.process.opened fd .listener
      match listen with
      | some errno => ({ s with process := p.close fd }, some (.system errno))
      | none => ({ s with mSocket := fd, process := p }, none)

def handleIo (cls : ConnectionClass κ) (res : RecvResult) (con : SocketObject κ) (p : Process) :
    Bool × SocketObject κ × Process :=
  let p := p.note [.read con.serial]
  match res with
  | .received [] => (true, con, p.note [.dropped con.serial])
  | .fails errno =>
    if errno = eagain ∨ errno = ewouldblock ∨ errno = eintr then (false, con, p)
    else
      let (con, p) := con.close (p.note [.dropped con.serial])
      (true, con, p)
  | .received data =>
    let (con, p) := con.onRead cls data p
    (decide (con.mSocket < 0), con, p)

/-- The branch of `run` for a readable listening socket. It also gives the results of `recv` that
are left. -/
def acceptConnection (cls : ConnectionClass κ) (r : Round) (s : UdsServer κ) : UdsServer κ × (Nat → RecvResult) :=
  if r.accept = -1 then (s, r.recvs)
  else
    let serial := s.process.accepts
    let p := s.process.accept r.accept
    match cls.createConnection r.accept with
    | none => ({ s with process := (p.note [.dropped serial]).close r.accept }, r.recvs)
    | some self =>
      let (closed, con, p) := handleIo cls (r.recvs 0) ⟨serial, r.accept, self⟩ (p.note [.onConnect serial])
      let later := fun i => r.recvs (i + 1)
      if closed then ({ s with process := con.release p }, later)
      else ({ s with mConnections := s.mConnections ++ [con], process := p }, later)

/-- The loop of `run` over the table, which erases connections while it goes. -/
def sweep (cls : ConnectionClass κ) (set : List Int) :
    (Nat → RecvResult) → List (SocketObject κ) → Process → List (SocketObject κ) × Process
  | _, [], p => ([], p)
  | recvs, con :: rest, p =>
    let p := p.note [.fdIsset con.mSocket]
    if con.mSocket ∈ set then
      let (closed, con, p) := handleIo cls (recvs 0) con p
      if closed then sweep cls set (fun i => recvs (i + 1)) rest (con.release p)
      else
        let (rest, p) := sweep cls set (fun i => recvs (i + 1)) rest p
        (con :: rest, p)
    else
      let (rest, p) := sweep cls set recvs rest p
      (con :: rest, p)

/-- The descriptors that `run` passes to `FD_SET`. -/
def passed (s : UdsServer κ) : List Int := s.mSocket :: s.mConnections.map (·.mSocket)

/-- `run`, with the value it returns. -/
def run (cls : ConnectionClass κ) (r : Round) (s : UdsServer κ) : Int × UdsServer κ :=
  let highest := (s.mConnections.map (·.mSocket)).foldl max s.mSocket
  let s' := { s with process := s.process.note (s.passed.map .fdSet) }
  match r.select with
  | .fails errno => (errno, s')
  | .expires => (0, s')
  | .leaves ready =>
    let set := s.passed.filter fun fd => fd < highest + 1 && ready fd
    let s' := { s' with process := s'.process.note [.fdIsset s.mSocket] }
    let (s', recvs) := if s.mSocket ∈ set then s'.acceptConnection cls r else (s', r.recvs)
    let (connections, p) := sweep cls set recvs s'.mConnections s'.process
    (0, { s' with mConnections := connections, process := p })

/-- A new descriptor is one that is not open. -/
def Permits (s : UdsServer κ) (r : Round) : Prop :=
  r.accept = -1 ∨ 0 ≤ r.accept ∧ s.process.descriptors r.accept = none

/-- Every sequence of calls of `run` on a server that was bound, and the state after it. -/
inductive Runs (cls : ConnectionClass κ) (listening : Int) : List Round → UdsServer κ → Prop
  | bound {path : Bytes} {s : UdsServer κ} : 0 ≤ listening →
      ({} : UdsServer κ).bind path (.ok listening) none = (s, none) → Runs cls listening [] s
  | next {rounds : List Round} {r : Round} {s : UdsServer κ} : Runs cls listening rounds s → s.Permits r →
      Runs cls listening (rounds ++ [r]) (s.run cls r).2

end UdsServer

end DockerPlugin
