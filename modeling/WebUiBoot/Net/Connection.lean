import WebUiBoot.Net.Socket
import WebUiBoot.Web.Answers

/-!
# What a connection carries

The answers of `run_network` in `src/main.rs` on the TCP connections that its socket goes through:
`send_slice` and `close` follow each other in one iteration, and nothing is sent behind that.

* `Wire` / `Tcp.Carries` — what is sent and read on the current connection, and what is relied on;
* `Quiet` — what the polls of the interface leave alone;
* `Spoken` / `iterate_spoken` — the current connection in every state of the loop;
* `one_answer_per_connection` — a connection carries one whole answer at most, to the first chunk
  that could be parsed;
* `lineTcp` / `lineTcp_carries` — a socket that keeps what it is given.
-/

namespace WebUiBoot.Net

open WebUiBoot.Text WebUiBoot.Boot WebUiBoot.Web WebUiBoot.Trace

/-! ### What is relied on -/

/-- The current connection, since the socket has been listening: the bytes that were accepted for
sending, and the chunks that were read. -/
structure Wire (σ : Type) where
  sent : σ → Bytes
  taken : σ → List Bytes

/-- The states in which our side is closed. -/
def TcpState.HalfClosed : TcpState → Prop
  | .closed | .finWait1 | .finWait2 | .closing | .lastAck | .timeWait => True
  | _ => False

/-- The states in which `send_slice` accepts bytes. -/
def TcpState.MaySend (state : TcpState) : Prop := state = .established ∨ state = .closeWait

/-- The documented behaviour of the calls, with a send buffer of 4096 bytes. -/
structure Tcp.Carries {σ : Type} (tcp : Tcp σ) (wire : Wire σ) : Prop where
  listen : ∀ s, tcp.isOpen s = false →
    wire.sent (tcp.listen s) = [] ∧ wire.taken (tcp.listen s) = []
  recvSlice : ∀ n s, tcp.canRecv s = true → ∃ chunk s', tcp.recvSlice n s = (some chunk, s')
    ∧ (0 < n → chunk ≠ []) ∧ wire.taken s' = wire.taken s ++ [chunk] ∧ wire.sent s' = wire.sent s
    ∧ tcp.state s' = tcp.state s
  /-- What does not fit is not accepted. -/
  sendSlice : ∀ r s, (tcp.state s).MaySend → wire.sent s = [] →
    wire.sent (tcp.sendSlice r s) = (encodeUtf8 r).take 4096
  sendSlice_closed : ∀ r s, ¬ (tcp.state s).MaySend →
    wire.sent (tcp.sendSlice r s) = wire.sent s
  sendSlice_taken : ∀ r s, wire.taken (tcp.sendSlice r s) = wire.taken s
  close : ∀ s, (tcp.state (tcp.close s)).HalfClosed
  close_wire : ∀ s, wire.sent (tcp.close s) = wire.sent s ∧ wire.taken (tcp.close s) = wire.taken s

/-- What a poll of the interface leaves alone, whatever the peer does: nothing is sent or read, and
our side is not opened again. -/
structure Quiet {σ : Type} (tcp : Tcp σ) (wire : Wire σ) (poll : σ → σ) : Prop where
  sent : ∀ s, wire.sent (poll s) = wire.sent s
  taken : ∀ s, wire.taken (poll s) = wire.taken s
  halfClosed : ∀ s, (tcp.state s).HalfClosed → (tcp.state (poll s)).HalfClosed

/-! ### One connection -/

variable {σ : Type}

/-- The chunk is not answered. -/
def Unanswered (env : Env σ) (chunk : Bytes) : Prop :=
  handleHttpRequest env.httparse env.htmlUi chunk = none

/-- The first chunk that can be parsed, and the answer to it, are the only ones of the connection
that count. -/
structure AnsweredFirst (env : Env σ) (chunks : List Bytes) (response : Str) : Prop where
  first : ∃ before chunk after selection, chunks = before ++ chunk :: after
    ∧ (∀ c ∈ before, Unanswered env c)
    ∧ handleHttpRequest env.httparse env.htmlUi chunk = some (response, selection)

/-- What the current connection has carried. -/
inductive Spoken (env : Env σ) (wire : Wire σ) (s : σ) : Prop
  | silent (sent : wire.sent s = [])
      (unanswered : ¬ (env.tcp.state s).HalfClosed → ∀ c ∈ wire.taken s, Unanswered env c)
  | answered (response : Str) (closed : (env.tcp.state s).HalfClosed)
      (first : AnsweredFirst env (wire.taken s) response)
      (sent : wire.sent s = (encodeUtf8 response).take 4096)

variable {env : Env σ} {wire : Wire σ} {s : σ}

theorem AnsweredFirst.append {chunks : List Bytes} {response : Str}
    (h : AnsweredFirst env chunks response) (chunk : Bytes) :
    AnsweredFirst env (chunks ++ [chunk]) response := by
  obtain ⟨before, first, after, selection, rfl, hbefore, hfirst⟩ := h.first
  exact ⟨before, first, after ++ [chunk], selection, by simp, hbefore, hfirst⟩

theorem not_halfClosed_of_maySend {state : TcpState} (h : state.MaySend) : ¬ state.HalfClosed := by
  rcases h with rfl | rfl
  · exact id
  · exact id

theorem Spoken.poll (h : Spoken env wire s) {poll : σ → σ} (hpoll : Quiet env.tcp wire poll) :
    Spoken env wire (poll s) := by
  cases h with
  | silent hsent hunanswered =>
      refine .silent ((hpoll.sent s).trans hsent) fun hopen c hc => ?_
      rw [hpoll.taken] at hc
      exact hunanswered (fun hclosed => hopen (hpoll.halfClosed s hclosed)) c hc
  | answered response hclosed hfirst hsent =>
      refine .answered response (hpoll.halfClosed s hclosed) ?_ ((hpoll.sent s).trans hsent)
      rw [hpoll.taken]
      exact hfirst

theorem Spoken.reopen (htcp : env.tcp.Carries wire) (h : Spoken env wire s) :
    Spoken env wire (reopen env s) := by
  unfold Net.reopen
  by_cases hopen : env.tcp.isOpen s = true
  · rw [if_pos hopen]
    exact h
  · rw [if_neg hopen]
    obtain ⟨hsent, htaken⟩ := htcp.listen s (by simpa using hopen)
    refine .silent hsent fun _ c hc => ?_
    rw [htaken] at hc
    cases hc

/-- A chunk that is not answered. -/
theorem Spoken.unanswered {s' : σ} {chunk : Bytes} (h : Spoken env wire s)
    (hchunk : Unanswered env chunk) (htaken : wire.taken s' = wire.taken s ++ [chunk])
    (hsent : wire.sent s' = wire.sent s) (hstate : env.tcp.state s' = env.tcp.state s) :
    Spoken env wire s' := by
  cases h with
  | silent hsilent hunanswered =>
      refine .silent (hsent.trans hsilent) fun hopen c hc => ?_
      rw [hstate] at hopen
      rw [htaken, List.mem_append] at hc
      rcases hc with hc | hc
      · exact hunanswered hopen c hc
      · exact List.mem_singleton.mp hc ▸ hchunk
  | answered response hclosed hfirst hanswer =>
      refine .answered response (hstate ▸ hclosed) ?_ (hsent.trans hanswer)
      rw [htaken]
      exact hfirst.append chunk

/-- **A chunk that is answered.**  Only on a connection that is still open is the answer sent. -/
theorem Spoken.answer (htcp : env.tcp.Carries wire) {s' : σ} {chunk : Bytes} {response : Str}
    {selection : Option BootSelection} (h : Spoken env wire s)
    (hchunk : handleHttpRequest env.httparse env.htmlUi chunk = some (response, selection))
    (htaken : wire.taken s' = wire.taken s ++ [chunk]) (hsent : wire.sent s' = wire.sent s)
    (hstate : env.tcp.state s' = env.tcp.state s) :
    Spoken env wire (env.tcp.close (env.tcp.sendSlice response s')) := by
  have hclosed := htcp.close (env.tcp.sendSlice response s')
  obtain ⟨hwire, htaken'⟩ := htcp.close_wire (env.tcp.sendSlice response s')
  rw [htcp.sendSlice_taken, htaken] at htaken'
  cases h with
  | silent hsilent hunanswered =>
      by_cases hmay : (env.tcp.state s').MaySend
      · have hanswer := htcp.sendSlice response s' hmay (hsent.trans hsilent)
        refine .answered response hclosed ⟨wire.taken s, chunk, [], selection, htaken', ?_, hchunk⟩
          (hwire.trans hanswer)
        exact hunanswered (hstate ▸ not_halfClosed_of_maySend hmay)
      · refine .silent (hwire.trans ?_) fun hopen => absurd hclosed hopen
        exact (htcp.sendSlice_closed response s' hmay).trans (hsent.trans hsilent)
  | answered response' hclosed' hfirst hanswer =>
      have hmay : ¬ (env.tcp.state s').MaySend := fun hmay =>
        not_halfClosed_of_maySend hmay (hstate ▸ hclosed')
      refine .answered response' hclosed ?_ (hwire.trans ?_)
      · rw [htaken']
        exact hfirst.append chunk
      · exact (htcp.sendSlice_closed response s' hmay).trans (hsent.trans hanswer)

theorem Spoken.receive (htcp : env.tcp.Carries wire) (h : Spoken env wire s) (ms : ℕ)
    (pending : Pending) : Spoken env wire (receive env ms s pending).1.1 := by
  unfold Net.receive
  by_cases hrecv : env.tcp.canRecv s = true
  · rw [if_pos hrecv]
    obtain ⟨chunk, s', heq, hne, htaken, hsent, hstate⟩ := htcp.recvSlice 1024 s hrecv
    rw [heq]
    dsimp only
    rw [if_neg (hne (by decide))]
    cases hanswer : handleHttpRequest env.httparse env.htmlUi chunk with
    | none => exact h.unanswered hanswer htaken hsent hstate
    | some answer =>
        obtain ⟨response, selection⟩ := answer
        have hspoken := h.answer htcp hanswer htaken hsent hstate
        cases selection with
        | none => exact hspoken
        | some selection => exact hspoken
  · rw [if_neg hrecv]
    exact h

/-- **One iteration.** -/
theorem iterate_spoken (htcp : env.tcp.Carries wire) (h : Spoken env wire s) (pending : Pending)
    {input : Input σ} (hpoll : Quiet env.tcp wire input.poll) :
    Spoken env wire (iterate env (s, pending) input).1.1 :=
  ((h.poll hpoll).reopen htcp).receive htcp input.ms pending

/-- **Any number of iterations.** -/
theorem network_spoken (htcp : env.tcp.Carries wire) (h : Spoken env wire s)
    {inputs : List (Input σ)} (hinputs : ∀ input ∈ inputs, Quiet env.tcp wire input.poll) :
    Spoken env wire ((network env).run (s, .empty) inputs).1.1 := by
  have halong := (network env).along_of_forall (P := fun _ input => Quiet env.tcp wire input.poll)
    (fun input hinput _ => hinputs input hinput) (s, .empty)
  exact @Machine.run_invariant_along _ _ _ (network env) _ (fun _ state => Spoken env wire state.1)
    (fun _ state _ h hpoll => iterate_spoken htcp h state.2 hpoll) inputs [] (s, .empty) h halong

/-! ### A socket -/

/-- A socket that keeps the bytes it accepts, with the number of those that the peer acknowledged,
and the chunks that are read. -/
structure Line where
  state : TcpState
  rxBuffer : Bytes
  sent : Bytes
  acked : ℕ
  taken : List Bytes
  deriving DecidableEq

def Line.sendQueue (s : Line) : ℕ := s.sent.length - s.acked

def Line.isOpen (s : Line) : Bool := s.state ≠ .closed ∧ s.state ≠ .timeWait

def Line.recvSlice (n : ℕ) (s : Line) : Option Bytes × Line :=
  (some (s.rxBuffer.take n),
    { s with rxBuffer := s.rxBuffer.drop n, taken := s.taken ++ [s.rxBuffer.take n] })

def Line.sendSlice (r : Str) (s : Line) : Line :=
  if s.state = .established ∨ s.state = .closeWait then
    { s with sent := s.sent ++ (encodeUtf8 r).take (4096 - s.sendQueue) }
  else s

def Line.close (s : Line) : Line :=
  match s.state with
  | .listen | .synSent => { s with state := .closed }
  | .synReceived | .established => { s with state := .finWait1 }
  | .closeWait => { s with state := .lastAck }
  | _ => s

def lineTcp : Tcp Line where
  state := Line.state
  rxBuffer := Line.rxBuffer
  sendQueue := Line.sendQueue
  isOpen := Line.isOpen
  listen s := if s.isOpen then s else ⟨.listen, [], [], 0, []⟩
  canRecv s := s.rxBuffer ≠ []
  recvSlice := Line.recvSlice
  sendSlice := Line.sendSlice
  close := Line.close

def lineWire : Wire Line := ⟨Line.sent, Line.taken⟩

theorem Line.close_eq (s : Line) : s.close.state.HalfClosed
    ∧ s.close.sent = s.sent ∧ s.close.taken = s.taken := by
  unfold Line.close
  cases hstate : s.state <;> simp [hstate, TcpState.HalfClosed]

theorem lineTcp_carries : lineTcp.Carries lineWire where
  listen s h := by
    have hlisten : lineTcp.listen s = ⟨.listen, [], [], 0, []⟩ :=
      if_neg (by rw [show s.isOpen = false from h]; exact Bool.false_ne_true)
    rw [hlisten]
    exact ⟨rfl, rfl⟩
  recvSlice n s h := by
    have hne : s.rxBuffer ≠ [] := of_decide_eq_true h
    refine ⟨s.rxBuffer.take n, _, rfl, fun hn hnil => ?_, rfl, rfl, rfl⟩
    rcases List.take_eq_nil_iff.mp hnil with hzero | hbuffer
    · omega
    · exact hne hbuffer
  sendSlice r s hmay hsent := by
    have hsent' : s.sent = [] := hsent
    have haccepted : lineTcp.sendSlice r s
        = { s with sent := s.sent ++ (encodeUtf8 r).take (4096 - s.sendQueue) } := if_pos hmay
    rw [haccepted]
    show s.sent ++ (encodeUtf8 r).take (4096 - (s.sent.length - s.acked)) = _
    rw [hsent', List.nil_append, List.length_nil, Nat.zero_sub, Nat.sub_zero]
  sendSlice_closed r s hmay := by
    have hrefused : lineTcp.sendSlice r s = s := if_neg hmay
    rw [hrefused]
  sendSlice_taken r s := by
    show (s.sendSlice r).taken = s.taken
    unfold Line.sendSlice
    split <;> rfl
  close s := s.close_eq.1
  close_wire s := s.close_eq.2

/-- The peer connects if it can, and sends a text. -/
def Line.arrive (text : String) (s : Line) : Line :=
  { s with
    rxBuffer := s.rxBuffer ++ encodeUtf8 text.toList
    state := if s.state = .listen then .established else s.state }

theorem arrive_quiet (text : String) : Quiet lineTcp lineWire (Line.arrive text) where
  sent _ := rfl
  taken _ := rfl
  halfClosed s h := by
    have hclosed : s.state.HalfClosed := h
    have hlisten : s.state ≠ .listen := fun hlisten => by
      rw [hlisten] at hclosed
      exact hclosed
    show (if s.state = .listen then TcpState.established else s.state).HalfClosed
    rw [if_neg hlisten]
    exact hclosed

/-! ### The answer -/

/-- **One answer on each connection.**  When the page leaves room for its headers in the send
buffer, after any number of iterations, whatever the clock and the client do: the current connection
carries nothing, or the whole answer to the first of its chunks that could be parsed and nothing
behind it; and a client reads that answer back as one message of the length that it says. -/
theorem one_answer_per_connection (htcp : env.tcp.Carries wire)
    (hpage : 111 + (encodeUtf8 env.htmlUi).length ≤ 4096) (inputs : List (Input σ))
    (hstart : wire.sent s = [] ∧ wire.taken s = [])
    (hinputs : ∀ input ∈ inputs, Quiet env.tcp wire input.poll) :
    let after := ((network env).run (s, .empty) inputs).1.1
    wire.sent after = []
      ∨ ∃ before chunk behind response selection, wire.taken after = before ++ chunk :: behind
        ∧ (∀ c ∈ before, handleHttpRequest env.httparse env.htmlUi c = none)
        ∧ handleHttpRequest env.httparse env.htmlUi chunk = some (response, selection)
        ∧ wire.sent after = encodeUtf8 response
        ∧ ∃ m, readMessage response = some m ∧ m.Whole := by
  intro after
  have hsilent : Spoken env wire s := by
    refine .silent hstart.1 fun _ c hc => ?_
    rw [hstart.2] at hc
    cases hc
  have hspoken : Spoken env wire after := network_spoken htcp hsilent hinputs
  cases hspoken with
  | silent hsent _ => exact Or.inl hsent
  | answered response _ hfirst hsent =>
      obtain ⟨before, chunk, behind, selection, htaken, hbefore, hchunk⟩ := hfirst.first
      have hanswered := answered_of_handle hchunk
      have hlength := hanswered.length_le hpage (by omega) (by decide)
      rw [List.take_of_length_le hlength] at hsent
      exact Or.inr ⟨before, chunk, behind, response, selection, htaken, hbefore, hchunk, hsent,
        hanswered.read_back⟩

/-- A first chunk that cannot be parsed, a request, and another request behind it. -/
def threeChunks : List (Input Line) :=
  [⟨0, id⟩, ⟨10, Line.arrive "POST"⟩, ⟨20, Line.arrive "POST /boot/windows HTTP/1.1\r\n\r\n"⟩,
    ⟨30, Line.arrive "POST /boot/windows HTTP/1.1\r\n\r\n"⟩]

def lineEnv : Env Line := ⟨lineTcp, tableHttparse [post "/boot/windows"], []⟩

/-- The connection that carries them. -/
def threeChunksLine : Line :=
  ((network lineEnv).run (⟨.closed, [], [], 0, []⟩, .empty) threeChunks).1.1

/-- All three are read, and the second one is answered. -/
theorem one_answer_per_connection_threeChunks :
    threeChunksLine.taken.length = 3 ∧ ∃ before chunk behind response selection,
      threeChunksLine.taken = before ++ chunk :: behind
      ∧ (∀ c ∈ before, handleHttpRequest lineEnv.httparse lineEnv.htmlUi c = none)
      ∧ handleHttpRequest lineEnv.httparse lineEnv.htmlUi chunk = some (response, selection)
      ∧ threeChunksLine.sent = encodeUtf8 response
      ∧ ∃ m, readMessage response = some m ∧ m.Whole := by
  have hinputs : ∀ input ∈ threeChunks, Quiet lineTcp lineWire input.poll := by
    intro input hinput
    rcases List.mem_cons.mp hinput with rfl | hinput
    · exact ⟨fun _ => rfl, fun _ => rfl, fun _ h => h⟩
    · rcases List.mem_cons.mp hinput with rfl | hinput
      · exact arrive_quiet _
      · rcases List.mem_cons.mp hinput with rfl | hinput
        · exact arrive_quiet _
        · obtain rfl := List.mem_singleton.mp hinput
          exact arrive_quiet _
  have htcp : lineEnv.tcp.Carries lineWire := lineTcp_carries
  have hcarried : threeChunksLine.sent ≠ [] ∧ threeChunksLine.taken.length = 3 := by
    decide +kernel
  have hanswer := one_answer_per_connection (s := ⟨.closed, [], [], 0, []⟩) htcp (by decide)
    threeChunks ⟨rfl, rfl⟩ hinputs
  exact ⟨hcarried.2, hanswer.resolve_left hcarried.1⟩

end WebUiBoot.Net
