import DuoDuo.Library.Machine
import DuoDuo.Net.TcpConnection

/-!
# One event loop and the connections that it serves

The model follows `EventLoop::loop` and `EventLoop::removeChannel`, the order of
callbacks in `Channel::handleEventWithGuard`, and the synchronous path by which
a connection is closed: `forceClose`, `handleClose`, `TcpServer::connectionClosed`,
`connectDestroyed`, `Channel::remove`. A connection and its channel share one
identifier; other identifiers stand for the acceptor and the wakeup channel.

Callbacks of the user are arbitrary: between the steps of the loop, any
connection may be sent to, shut down or closed. `handleClose` runs the user's
connection callback before it calls `closeCallback_`, so the connections whose
`closeCallback_` is still to come form a stack. The assertion of `removeChannel`
is recorded and execution continues, as in a build without assertions.
-/

namespace DuoDuo.Net

open Library

/-- `POLLERR`. -/
def POLLERR : ℕ := 0x8

/-- `POLLHUP`. -/
def POLLHUP : ℕ := 0x10

/-- `POLLNVAL`. -/
def POLLNVAL : ℕ := 0x20

/-- `POLLRDHUP`. -/
def POLLRDHUP : ℕ := 0x2000

/-- The callbacks of a channel. -/
inductive EventCallback
  | closeCallback
  | errorCallback
  | readCallback
  | writeCallback
  deriving DecidableEq, Repr

/-- The callbacks that `Channel::handleEventWithGuard` makes for a mask, in order. -/
def handleEventWithGuard (revents : ℕ) : List EventCallback :=
  (if revents &&& POLLHUP ≠ 0 ∧ revents &&& POLLIN = 0 then [.closeCallback] else []) ++
  (if revents &&& (POLLERR ||| POLLNVAL) ≠ 0 then [.errorCallback] else []) ++
  (if revents &&& (POLLIN ||| POLLPRI ||| POLLRDHUP) ≠ 0 then [.readCallback] else []) ++
  (if revents &&& POLLOUT ≠ 0 then [.writeCallback] else [])

/-- A channel identifier. -/
abbrev ChannelId := ℕ

/-- The state of an event loop, of the connections on it, and of the server's set. -/
structure EventLoop where
  /-- The connections of this loop. -/
  conns : ChannelId → Option TcpConnection := fun _ => none
  /-- `TcpServer::connSet_`. -/
  connSet : List ChannelId := []
  /-- `activeChannels_`. -/
  activeChannels : List ChannelId := []
  /-- The channels of the batch that the iterator has not reached, with their `revents_`. -/
  unvisited : List (ChannelId × ℕ) := []
  /-- `currentActiveChannel_`. -/
  currentActiveChannel : Option ChannelId := none
  /-- `eventHandling_`. -/
  eventHandling : Bool := false
  /-- The callbacks that the current `handleEvent` has still to make. -/
  todo : List EventCallback := []
  /-- The connections inside `handleClose` whose `closeCallback_` is still to come. -/
  closing : List ChannelId := []
  /-- The channels removed since the last poll. -/
  removed : List ChannelId := []
  /-- The assertion of `removeChannel` has failed. -/
  assertionFailed : Bool := false
  /-- `handleEvent` was dispatched on a channel that had been removed in the same batch. -/
  dispatchedRemoved : Bool := false

/-- `TcpConnection::StateE` values in which `forceClose` acts. -/
def TcpConnection.isOpen (c : TcpConnection) : Bool :=
  c.state = .kConnected ∨ c.state = .kDisconnecting

namespace EventLoop

/-- The connection `c` is on this loop and open. -/
def isOpen (l : EventLoop) (c : ChannelId) : Bool := (l.conns c).any TcpConnection.isOpen

/-- Replace the connection `c`, if there is one. -/
def modify (l : EventLoop) (c : ChannelId) (f : TcpConnection → TcpConnection) : EventLoop :=
  { l with conns := Function.update l.conns c ((l.conns c).map f) }

/-- `TcpConnection::handleClose`, up to and including the call of `connectionCallback_`. -/
def handleClose (l : EventLoop) (c : ChannelId) : EventLoop :=
  let l := l.modify c fun conn =>
    { conn with state := .kDisconnected, channel := conn.channel.disableAll }
  { l with closing := c :: l.closing }

/-- `EventLoop::removeChannel`. -/
def removeChannel (l : EventLoop) (c : ChannelId) : EventLoop :=
  { l with
    assertionFailed := l.assertionFailed || (l.eventHandling &&
      !(l.currentActiveChannel == some c || !l.activeChannels.contains c))
    removed := c :: l.removed }

/-- `TcpConnection::connectDestroyed`, ending in `Channel::remove`. -/
def connectDestroyed (l : EventLoop) (c : ChannelId) : EventLoop :=
  (l.modify c fun conn =>
    if conn.state = .kConnected then
      { conn with state := .kDisconnected, channel := conn.channel.disableAll }
    else conn).removeChannel c

/-- `TcpServer::connectionClosed`, with the server on this loop. -/
def connectionClosed (l : EventLoop) (c : ChannelId) : EventLoop :=
  connectDestroyed { l with connSet := l.connSet.erase c } c

/-- The functor of `TcpConnection::forceClose`. -/
def forceClose (l : EventLoop) (c : ChannelId) : EventLoop :=
  if l.isOpen c then
    (l.modify c fun conn => { conn with state := .kDisconnecting }).handleClose c
  else l

/-- One callback of the current channel. `readable` is the result of `readFd` and
`answer` that of `::write`. Channels that are not connections close nothing. -/
def runCallback (l : EventLoop) (c : ChannelId) (readable : ℤ) (answer : WriteResult) :
    EventCallback → EventLoop
  | .closeCallback => if (l.conns c).isSome then l.handleClose c else l
  | .errorCallback => l
  | .readCallback => if (l.conns c).isSome ∧ readable = 0 then l.handleClose c else l
  | .writeCallback => l.modify c fun conn => (conn.handleWrite answer).conn

end EventLoop

/-- The steps of an event loop and of the callbacks that run on it. -/
inductive LoopEvent
  /-- The poller returns a batch, and the dispatch of its channels begins. -/
  | poll (batch : List (ChannelId × ℕ))
  /-- The iterator reaches the next channel, whose `handleEvent` is called. -/
  | handleEvent
  /-- The current channel makes its next callback. -/
  | callback (readable : ℤ) (answer : WriteResult)
  /-- The innermost `handleClose` calls `closeCallback_`. -/
  | closeCallback
  /-- The batch is finished, and the pending functors may run. -/
  | endBatch
  /-- A connection is established on this loop. -/
  | newConnection (c : ChannelId) (fd : ℕ)
  /-- A callback sends on a connection. -/
  | send (c : ChannelId) (data : List UInt8) (answer : WriteResult)
  /-- A callback shuts down a connection. -/
  | shutdown (c : ChannelId)
  /-- A callback closes a connection. -/
  | forceClose (c : ChannelId)

namespace EventLoop

/-- The user's code is running: inside a handler, or among the pending functors. -/
def userRuns (l : EventLoop) : Bool := !l.eventHandling || l.currentActiveChannel.isSome

/-- No callback of the current handler is outstanding. -/
def idle (l : EventLoop) : Bool := l.todo.isEmpty && l.closing.isEmpty

/-- The steps of `EventLoop::loop` and of the code that it calls. -/
def next (l : EventLoop) : LoopEvent → Option EventLoop
  | .poll batch =>
    if !l.eventHandling && l.idle && (batch.map Prod.fst).Nodup then
      some { l with
        activeChannels := batch.map Prod.fst
        unvisited := batch
        eventHandling := true
        removed := [] }
    else none
  | .handleEvent =>
    match l.unvisited with
    | (c, revents) :: rest =>
      if l.idle then
        some { l with
          unvisited := rest
          currentActiveChannel := some c
          todo := handleEventWithGuard revents
          dispatchedRemoved := l.dispatchedRemoved || l.removed.contains c }
      else none
    | [] => none
  | .callback readable answer =>
    match l.currentActiveChannel, l.todo with
    | some c, cb :: rest =>
      if l.closing.isEmpty then some ({ l with todo := rest }.runCallback c readable answer cb)
      else none
    | _, _ => none
  | .closeCallback =>
    match l.closing with
    | c :: rest => some ({ l with closing := rest }.connectionClosed c)
    | [] => none
  | .endBatch =>
    if l.eventHandling && l.idle && l.unvisited.isEmpty then
      some { l with currentActiveChannel := none, eventHandling := false }
    else none
  | .newConnection c fd =>
    if l.userRuns && (l.conns c).isNone && !l.activeChannels.contains c then
      some { l with
        conns := Function.update l.conns c
          (some (TcpConnection.connectEstablished { channel := { fd } }))
        connSet := c :: l.connSet }
    else none
  | .send c data answer =>
    if l.userRuns then some (l.modify c fun conn => (conn.sendInLoop data answer).conn) else none
  | .shutdown c => if l.userRuns then some (l.modify c TcpConnection.shutdown) else none
  | .forceClose c => if l.userRuns then some (l.forceClose c) else none

/-- The machine of one event loop, from its construction on. -/
def machine : Machine EventLoop LoopEvent := Machine.ofNext (fun l => l = {}) next

end EventLoop

end DuoDuo.Net
