import ThirdPartDemo.Library.Transition

/-!
# libuvDemo — the reconnecting TCP client

The class `TcpClient` of `libuvDemo/TcpClient.h` and `TcpClient.cpp`, as a
state and one function per callback. The members `m_isConnect`,
`m_isReconnect` and `m_isClosed` are the source's; of the libuv handles and
requests the model keeps what decides which callback may come next:

* `m_connectReq` — whether a `uv_tcp_connect` is in flight;
* `m_socket` — open, closing (`uv_close` was called) or closed;
* `reading` — whether `uv_read_start` is in force on the stream;
* `m_sendTimer`, `m_reconnectTimer` — the timeout a running timer was started
  with, `none` when it is stopped;
* `m_sendAsync` — whether an `uv_async_send` has not been delivered yet;
* `m_writeReq` — how many submitted writes using that one request object have
  not completed;
* `m_writeReqFreed` — whether a completion callback called `free` on that object,
  which is a member of the client and not from the heap;
* `m_closeTwice` — whether `uv_close` was called on a socket that was already
  closing.

`step` is the event loop: it delivers one callback, and is `none` for a
callback that libuv cannot deliver in that state. The `data` members always
point back to the client and are left out.
-/

namespace Libuv

open Library

/-- Life of a libuv handle. -/
inductive Handle where
  | opened
  | closing
  | closed
  deriving DecidableEq, Repr

/-- The state of the client between two callbacks. -/
structure TcpClient where
  m_isConnect : Bool := false
  m_isReconnect : Bool := true
  m_isClosed : Bool := false
  m_interval : Nat := 0
  m_sendInterval : Nat := 0
  m_socket : Handle := .opened
  reading : Bool := false
  m_sendTimer : Option Nat := none
  m_reconnectTimer : Option Nat := none
  m_sendAsync : Bool := false
  m_connectReq : Bool := false
  m_writeReq : Nat := 0
  m_writeReqFreed : Bool := false
  m_closeTwice : Bool := false
  deriving DecidableEq, Repr

/-- The return values of the libuv calls of the constructor, in call order. -/
structure SetUp where
  uv_mutex_init : Int
  uv_timer_init_send : Int
  uv_async_init : Int
  uv_timer_init_reconnect : Int
  uv_tcp_init : Int
  uv_tcp_nodelay : Int
  uv_tcp_keepalive : Int
  uv_ip4_addr : Int
  uv_tcp_connect : Int
  deriving DecidableEq, Repr

/-- The return values in call order: the constructor gives up at the first one
that is not zero. -/
def SetUp.returns (r : SetUp) : List Int :=
  [r.uv_mutex_init, r.uv_timer_init_send, r.uv_async_init, r.uv_timer_init_reconnect,
    r.uv_tcp_init, r.uv_tcp_nodelay, r.uv_tcp_keepalive, r.uv_ip4_addr, r.uv_tcp_connect]

/-- `TcpClient::TcpClient`: `none` when one of its calls fails and the client is
left without a connect request. -/
def construct (r : SetUp) : Option TcpClient :=
  if r.returns.all (· == 0) then
    some { m_interval := 1000, m_sendInterval := 10, m_connectReq := true }
  else
    none

namespace TcpClient

/-- `uv_close`: calling it on a closing handle is a misuse that libuv asserts on. -/
def uv_close (c : TcpClient) : TcpClient :=
  match c.m_socket with
  | .opened => { c with m_socket := .closing, reading := false }
  | .closing | .closed => { c with m_closeTwice := true }

/-- `TcpClient::startReconnect` -/
def startReconnect (c : TcpClient) : TcpClient :=
  { c with m_isReconnect := true }

/-- `TcpClient::stopReconnect` -/
def stopReconnect (c : TcpClient) : TcpClient :=
  { c with m_isConnect := false, m_reconnectTimer := none }

/-- `TcpClient::startSend` -/
def startSend (c : TcpClient) : TcpClient :=
  { c with m_sendTimer := some c.m_sendInterval }

/-- `TcpClient::connect`, called with the connect's `status`; `iret` is what
`uv_read_start` returns when it is called. -/
def connect (c : TcpClient) (status iret : Int) : TcpClient :=
  if status ≠ 0 then
    (startReconnect { c with m_isConnect := false }).uv_close
  else
    let c :=
      if iret ≠ 0 then c
      else startSend { c with m_isConnect := true, reading := true }
    if c.m_isReconnect then stopReconnect c else c

/-- `TcpClient::close` -/
def close (c : TcpClient) : TcpClient :=
  { c with m_isClosed := true }

/-- `TcpClient::read`: the body is empty. -/
def read (c : TcpClient) (_nread : Int) : TcpClient := c

/-- `TcpClient::sendTimer` -/
def sendTimer (c : TcpClient) : TcpClient :=
  { c with m_sendAsync := true }

/-- `TcpClient::sendAsync`; `ret` is what `uv_write` returns when it is called. -/
def sendAsync (c : TcpClient) (ret : Int) : TcpClient :=
  if c.m_isConnect then
    if ret = 0 then { c with m_writeReq := c.m_writeReq + 1 } else c
  else c

end TcpClient

/-- The callbacks that the event loop delivers. -/
inductive Event where
  | connect (status iret : Int)
  | sendTimer
  | sendAsync (ret : Int)
  | read (nread : Int)
  | close
  | written (status : Int)
  deriving DecidableEq, Repr

/-- One callback delivered by the event loop. Requests and one-shot timers are
used up by their callback; a callback that was not asked for cannot come. What
follows after `free(req)` is what an allocator does that takes no notice of it. -/
def step (c : TcpClient) : Event → Option TcpClient
  | .connect status iret =>
    if c.m_connectReq then some ({ c with m_connectReq := false }.connect status iret) else none
  | .sendTimer =>
    if c.m_sendTimer.isSome then some { c with m_sendTimer := none }.sendTimer else none
  | .sendAsync ret =>
    if c.m_sendAsync then some ({ c with m_sendAsync := false }.sendAsync ret) else none
  | .read nread =>
    if c.reading then some (c.read nread) else none
  | .close =>
    if c.m_socket = .closing then some { c with m_socket := .closed }.close else none
  | .written _ =>
    if 0 < c.m_writeReq then
      some { c with m_writeReq := c.m_writeReq - 1, m_writeReqFreed := true }
    else none

/-- What one callback does, with what it needs to be delivered. -/
theorem step_cases {c c' : TcpClient} {e : Event} (h : step c e = some c') :
    (∃ status iret, e = .connect status iret ∧ c.m_connectReq = true ∧
      c' = { c with m_connectReq := false }.connect status iret) ∨
    (e = .sendTimer ∧ c.m_sendTimer.isSome = true ∧
      c' = { c with m_sendTimer := none }.sendTimer) ∨
    (∃ ret, e = .sendAsync ret ∧ c.m_sendAsync = true ∧
      c' = { c with m_sendAsync := false }.sendAsync ret) ∨
    (∃ nread, e = .read nread ∧ c.reading = true ∧ c' = c.read nread) ∨
    (e = .close ∧ c.m_socket = .closing ∧ c' = { c with m_socket := .closed }.close) ∨
    (∃ status, e = .written status ∧ 0 < c.m_writeReq ∧
      c' = { c with m_writeReq := c.m_writeReq - 1, m_writeReqFreed := true }) := by
  cases e <;> obtain ⟨hguard, ⟨⟩⟩ := Option.ite_none_right_eq_some.mp h <;> simp_all

end Libuv
