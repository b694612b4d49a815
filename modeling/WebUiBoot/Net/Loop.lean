import WebUiBoot.Lib.Trace
import WebUiBoot.Web.Http

/-!
# The network task: model

The loop of `run_network` in `src/main.rs`, from the poll of the interface to the boot that is
fired, as a machine that takes one iteration to a step.

* `Tcp` — the TCP socket, as a type of states with the calls that the loop makes;
* `Env` — what the loop is linked with, and `Input` — the clock and the traffic of one iteration;
* `receive`, `fire`, `iterate` — the body of the loop;
* `network` — the machine; it emits what it receives, sends, accepts and boots.
-/

namespace WebUiBoot.Net

open WebUiBoot.Text WebUiBoot.Boot WebUiBoot.Web WebUiBoot.Trace

/-- `tcp::State`. -/
inductive TcpState
  | closed
  | listen
  | synSent
  | synReceived
  | established
  | finWait1
  | finWait2
  | closeWait
  | closing
  | lastAck
  | timeWait
  deriving DecidableEq

/-- The TCP socket: its states, and the calls that the loop makes. -/
structure Tcp (σ : Type) where
  state : σ → TcpState
  /-- The bytes in the receive buffer. -/
  rxBuffer : σ → Bytes
  sendQueue : σ → ℕ
  isOpen : σ → Bool
  listen : σ → σ
  canRecv : σ → Bool
  /-- `recv_slice` into a buffer of a given size: the bytes that were read, when it succeeds. -/
  recvSlice : ℕ → σ → Option Bytes × σ
  sendSlice : Str → σ → σ
  close : σ → σ

/-- What the loop is linked with. -/
structure Env (σ : Type) where
  tcp : Tcp σ
  httparse : Httparse
  htmlUi : Str

/-- The clock reading of an iteration, and what `iface.poll` does to the socket. -/
structure Input (σ : Type) where
  ms : ℕ
  poll : σ → σ

/-- `pending_boot` and `pending_boot_time`. -/
structure Pending where
  boot : Option BootSelection
  time : Option ℕ

def Pending.empty : Pending := ⟨none, none⟩

inductive Event
  | received (chunk : Bytes)
  /-- A response that is passed to `send_slice`. -/
  | sent (response : Str)
  | accepted (selection : BootSelection) (ms : ℕ)
  /-- An attempt to boot, with the state of the socket and its send queue. -/
  | booted (selection : BootSelection) (ms : ℕ) (state : TcpState) (sendQueue : ℕ)
  /-- The end of an iteration. -/
  | done (ms : ℕ)
  deriving DecidableEq

variable {σ : Type}

/-- From `can_recv` on. -/
def receive (env : Env σ) (ms : ℕ) (socket : σ) (pending : Pending) : (σ × Pending) × List Event :=
  if env.tcp.canRecv socket then
    match env.tcp.recvSlice 1024 socket with
    | (none, socket) => ((socket, pending), [])
    | (some chunk, socket) =>
        if chunk = [] then ((socket, pending), [])
        else
          match handleHttpRequest env.httparse env.htmlUi chunk with
          | none => ((socket, pending), [.received chunk])
          | some (response, selection) =>
              let socket := env.tcp.close (env.tcp.sendSlice response socket)
              match selection with
              | none => ((socket, pending), [.received chunk, .sent response])
              | some sel =>
                  ((socket, ⟨some sel, some ms⟩),
                    [.received chunk, .sent response, .accepted sel ms])
  else ((socket, pending), [])

/-- `pending_boot_time.map(|start| ms.saturating_sub(start)).unwrap_or(0)`. -/
def elapsed (ms : ℕ) (pending : Pending) : ℕ := (pending.time.map fun start => ms - start).getD 0

/-- The end of the iteration, if a boot is pending. -/
def fire (env : Env σ) (ms : ℕ) (socket : σ) (pending : Pending) : Pending × List Event :=
  match pending.boot with
  | none => (pending, [])
  | some sel =>
      if env.tcp.state socket = .closed ∨ env.tcp.state socket = .timeWait
          ∨ (env.tcp.sendQueue socket = 0 ∧ 100 ≤ elapsed ms pending)
          ∨ 500 ≤ elapsed ms pending then
        (.empty, [.booted sel ms (env.tcp.state socket) (env.tcp.sendQueue socket)])
      else (pending, [])

/-- `listen` when the socket is not open. -/
def reopen (env : Env σ) (socket : σ) : σ :=
  if env.tcp.isOpen socket then socket else env.tcp.listen socket

def iterate (env : Env σ) (state : σ × Pending) (input : Input σ) : (σ × Pending) × List Event :=
  let socket := reopen env (input.poll state.1)
  let received := receive env input.ms socket state.2
  let fired := fire env input.ms received.1.1 received.1.2
  ((received.1.1, fired.1), received.2 ++ fired.2 ++ [.done input.ms])

/-- The loop, an iteration to a step. -/
def network (env : Env σ) : Machine (σ × Pending) (Input σ) Event := ⟨iterate env⟩

end WebUiBoot.Net
