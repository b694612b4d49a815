import WebUiBoot.Net.Loop

/-!
# The socket under the network task

What the loop relies on in its TCP socket, and a socket that keeps to it.

* `Tcp.Lawful` — the documented behaviour of the calls;
* `socketTcp` / `socketTcp_lawful` — a socket with a buffer and a count of unacknowledged bytes;
* `tableHttparse` — a parser that is given by its answers.
-/

namespace WebUiBoot.Net

open WebUiBoot.Text WebUiBoot.Boot WebUiBoot.Web

/-- What is relied on.  Only `close` is said to have an effect on an open connection: the peer's
side being closed, it does not leave the socket in `CloseWait`. -/
structure Tcp.Lawful {σ : Type} (tcp : Tcp σ) : Prop where
  isOpen : ∀ s, tcp.isOpen s = false ↔ tcp.state s = .closed ∨ tcp.state s = .timeWait
  listen : ∀ s, tcp.isOpen s = false → tcp.state (tcp.listen s) = .listen
  canRecv : ∀ s, tcp.canRecv s = true ↔ tcp.rxBuffer s ≠ []
  recvSlice : ∀ n s, tcp.rxBuffer s ≠ [] →
    (tcp.recvSlice n s).1 = some ((tcp.rxBuffer s).take n)
      ∧ tcp.rxBuffer (tcp.recvSlice n s).2 = (tcp.rxBuffer s).drop n
      ∧ tcp.state (tcp.recvSlice n s).2 = tcp.state s
  sendSlice : ∀ r s, tcp.state (tcp.sendSlice r s) = tcp.state s
  close : ∀ s, tcp.state (tcp.close s) ≠ .closeWait

/-- A socket: the bytes that wait to be read, and the number of those that wait to be acknowledged
by the peer. -/
structure Socket where
  state : TcpState
  rxBuffer : Bytes
  sendQueue : ℕ
  deriving DecidableEq

def Socket.isOpen (s : Socket) : Bool := s.state ≠ .closed ∧ s.state ≠ .timeWait

def Socket.close (s : Socket) : Socket :=
  match s.state with
  | .listen | .synSent => { s with state := .closed }
  | .synReceived | .established => { s with state := .finWait1 }
  | .closeWait => { s with state := .lastAck }
  | _ => s

/-- The calls, with a send buffer of 4096 bytes. -/
def socketTcp : Tcp Socket where
  state := Socket.state
  rxBuffer := Socket.rxBuffer
  sendQueue := Socket.sendQueue
  isOpen := Socket.isOpen
  listen s := if s.isOpen then s else ⟨.listen, [], 0⟩
  canRecv s := s.rxBuffer ≠ []
  recvSlice n s := (some (s.rxBuffer.take n), { s with rxBuffer := s.rxBuffer.drop n })
  sendSlice r s :=
    if s.state = .established ∨ s.state = .closeWait then
      { s with sendQueue := min 4096 (s.sendQueue + (encodeUtf8 r).length) }
    else s
  close := Socket.close

theorem socketTcp_lawful : socketTcp.Lawful where
  isOpen s := by
    show (decide (s.state ≠ .closed ∧ s.state ≠ .timeWait)) = false ↔ _
    rw [decide_eq_false_iff_not, not_and_or, not_not, not_not]
    exact Iff.rfl
  listen s h := by
    show (if s.isOpen = true then s else _).state = .listen
    rw [if_neg (by rw [show s.isOpen = false from h]; exact Bool.false_ne_true)]
  canRecv s := decide_eq_true_iff
  recvSlice _ _ _ := ⟨rfl, rfl, rfl⟩
  sendSlice r s := by
    show (if s.state = .established ∨ s.state = .closeWait then _ else s).state = s.state
    split <;> rfl
  close s := by
    show s.close.state ≠ .closeWait
    unfold Socket.close
    cases hstate : s.state <;> simp [hstate]

/-- A parser by its answers: for each of the given texts, what is found in it. -/
def tableHttparse (table : List (String × Parsed)) : Httparse := fun _ request =>
  match table.find? fun entry => encodeUtf8 entry.1.toList = request with
  | some (_, parsed) => parsed
  | none => ⟨false, none, none⟩

/-- A whole request with an empty head. -/
def post (path : String) : String × Parsed :=
  ("POST " ++ path ++ " HTTP/1.1\r\n\r\n", ⟨true, some "POST".toList, some path.toList⟩)

/-- The peer sends a text. -/
def arrive (text : String) (s : Socket) : Socket :=
  { s with rxBuffer := s.rxBuffer ++ encodeUtf8 text.toList }

end WebUiBoot.Net
