import WebUiBoot.Net.Pending

/-!
# Requests and TCP segments

The loop takes each chunk that `recv_slice` returns for a whole request, and keeps nothing of it.

* `Segments` — a stream, cut into chunks;
* `outcome` / `outcomeOf` — what a client gets to see of a run, and what the chunks alone say of it;
* `outcome_run` — they are the same, in every run;
* `segmentation_independent_iff` — the outcome does not depend on the cuts exactly for the streams
  no block of which is answered;
* `cut_request_is_lost` — a request that is cut is not answered.
-/

namespace WebUiBoot.Net

open WebUiBoot.Text WebUiBoot.Boot WebUiBoot.Web WebUiBoot.Trace

def Event.chunk : Event → Option Bytes
  | .received chunk => some chunk
  | _ => none

def Event.response : Event → Option Str
  | .sent response => some response
  | _ => none

def Event.selection : Event → Option BootSelection
  | .accepted selection _ => some selection
  | _ => none

/-- The chunks that were received. -/
def chunksOf (events : List Event) : List Bytes := events.filterMap Event.chunk

/-- The response of a run on one connection, and the selections that were accepted.  Behind the
first response the socket is closed, and sends no other one. -/
def outcome (events : List Event) : Option Str × List BootSelection :=
  ((events.filterMap Event.response).head?, events.filterMap Event.selection)

/-- The outcome of chunks each of which is a request. -/
def outcomeOf (httparse : Httparse) (htmlUi : Str) (chunks : List Bytes) :
    Option Str × List BootSelection :=
  let answers := chunks.filterMap (handleHttpRequest httparse htmlUi)
  ((answers.map Prod.fst).head?, answers.filterMap Prod.snd)

/-- A stream, cut into chunks as the buffer of the loop can hold them. -/
def Segments (stream : Bytes) (chunks : List Bytes) : Prop :=
  chunks.flatten = stream ∧ ∀ chunk ∈ chunks, chunk ≠ [] ∧ chunk.length ≤ 1024

/-- Any two runs that receive the stream, whatever the cuts, have the same outcome. -/
def SegmentationIndependent (httparse : Httparse) (htmlUi : Str) (stream : Bytes) : Prop :=
  ∀ (σ σ' : Type) (tcp : Tcp σ) (tcp' : Tcp σ') (socket : σ) (socket' : σ')
    (inputs : List (Input σ)) (inputs' : List (Input σ')),
    Segments stream
      (chunksOf ((network ⟨tcp, httparse, htmlUi⟩).run (socket, .empty) inputs).2) →
    Segments stream
      (chunksOf ((network ⟨tcp', httparse, htmlUi⟩).run (socket', .empty) inputs').2) →
    outcome ((network ⟨tcp, httparse, htmlUi⟩).run (socket, .empty) inputs).2
      = outcome ((network ⟨tcp', httparse, htmlUi⟩).run (socket', .empty) inputs').2

variable {σ : Type}

/-! ### The outcome of a run -/

/-- What was sent and accepted is what the chunks are answered. -/
structure Answers (env : Env σ) (events : List Event) : Prop where
  responses : events.filterMap Event.response
    = ((chunksOf events).filterMap (handleHttpRequest env.httparse env.htmlUi)).map Prod.fst
  selections : events.filterMap Event.selection
    = ((chunksOf events).filterMap (handleHttpRequest env.httparse env.htmlUi)).filterMap Prod.snd

variable {env : Env σ}

theorem Answers.append {events events' : List Event} (h : Answers env events)
    (h' : Answers env events') : Answers env (events ++ events') where
  responses := by
    rw [chunksOf, List.filterMap_append, List.filterMap_append, List.filterMap_append,
      List.map_append, h.responses, h'.responses]
    rfl
  selections := by
    rw [chunksOf, List.filterMap_append, List.filterMap_append, List.filterMap_append,
      List.filterMap_append, h.selections, h'.selections]
    rfl

theorem answers_receive (env : Env σ) (ms : ℕ) (socket : σ) (pending : Pending) :
    Answers env (receive env ms socket pending).2 := by
  unfold receive
  split
  · split
    · exact ⟨rfl, rfl⟩
    · rename_i chunk socket' _
      split
      · exact ⟨rfl, rfl⟩
      · have hone : ∀ events, chunksOf events = [chunk] → (chunksOf events).filterMap
              (handleHttpRequest env.httparse env.htmlUi)
            = (handleHttpRequest env.httparse env.htmlUi chunk).toList := by
          intro events hevents
          rw [hevents]
          cases hanswer : handleHttpRequest env.httparse env.htmlUi chunk with
          | none => rw [List.filterMap_cons_none hanswer]; rfl
          | some answer => rw [List.filterMap_cons_some hanswer]; rfl
        have hanswers : ∀ events, chunksOf events = [chunk] →
            events.filterMap Event.response
              = (handleHttpRequest env.httparse env.htmlUi chunk).toList.map Prod.fst →
            events.filterMap Event.selection
              = (handleHttpRequest env.httparse env.htmlUi chunk).toList.filterMap Prod.snd →
            Answers env events := by
          intro events hevents hresponses hselections
          rw [← hone events hevents] at hresponses hselections
          exact ⟨hresponses, hselections⟩
        apply hanswers
        · cases handleHttpRequest env.httparse env.htmlUi chunk with
          | none => rfl
          | some answer => obtain ⟨response, _ | sel⟩ := answer <;> rfl
        · cases handleHttpRequest env.httparse env.htmlUi chunk with
          | none => rfl
          | some answer => obtain ⟨response, _ | sel⟩ := answer <;> rfl
        · cases handleHttpRequest env.httparse env.htmlUi chunk with
          | none => rfl
          | some answer => obtain ⟨response, _ | sel⟩ := answer <;> rfl
  · exact ⟨rfl, rfl⟩

theorem answers_fire (env : Env σ) (ms : ℕ) (socket : σ) (pending : Pending) :
    Answers env (fire env ms socket pending).2 := by
  unfold fire
  split
  · exact ⟨rfl, rfl⟩
  · split
    · exact ⟨rfl, rfl⟩
    · exact ⟨rfl, rfl⟩

/-- **The outcome.**  In every run it is that of the chunks that were received. -/
theorem outcome_run (env : Env σ) (state : σ × Pending) (inputs : List (Input σ)) :
    outcome ((network env).run state inputs).2
      = outcomeOf env.httparse env.htmlUi (chunksOf ((network env).run state inputs).2) := by
  have hstep : ∀ events (state : σ × Pending) input, Answers env events →
      Answers env (events ++ ((network env).step state input).2) := by
    intro events state input h
    apply h.append
    apply Answers.append
    · apply Answers.append
      · exact answers_receive env _ _ _
      · exact answers_fire env _ _ _
    · exact ⟨rfl, rfl⟩
  have hnil : Answers env [] := ⟨rfl, rfl⟩
  have hrun := (network env).run_invariant (I := fun events _ => Answers env events) hstep
    (s := state) hnil inputs
  exact Prod.ext (congrArg List.head? hrun.responses) hrun.selections

/-! ### Runs with given chunks -/

/-- The traffic that brings the chunks, one before each iteration. -/
def deliver (chunks : List Bytes) : List (Input Socket) :=
  chunks.map fun chunk => ⟨0, fun s => { s with rxBuffer := chunk }⟩

/-- An open connection. -/
def connected : Socket := ⟨.established, [], 0⟩

/-- Nothing is received behind `receive`. -/
theorem chunksOf_iterate (env : Env σ) (state : σ × Pending) (input : Input σ) :
    chunksOf (iterate env state input).2
      = chunksOf (receive env input.ms (reopen env (input.poll state.1)) state.2).2 := by
  have hfire : ∀ (socket : σ) (pending : Pending),
      chunksOf (fire env input.ms socket pending).2 = [] := by
    intro socket pending
    unfold fire
    split
    · rfl
    · split <;> rfl
  show chunksOf (_ ++ _ ++ [.done input.ms]) = _
  rw [chunksOf, List.filterMap_append, List.filterMap_append]
  show _ ++ chunksOf _ ++ [] = _
  rw [hfire, List.append_nil, List.append_nil]
  rfl

/-- An open connection reads the chunk that has come, and stays open for what the peer sends. -/
theorem receive_deliver (httparse : Httparse) (htmlUi : Str) (pending : Pending)
    (socket : Socket) {chunk : Bytes} (hrx : socket.rxBuffer = chunk) (hne : chunk ≠ [])
    (hle : chunk.length ≤ 1024)
    (hstate : socket.state = .established ∨ socket.state = .finWait1) :
    chunksOf (receive ⟨socketTcp, httparse, htmlUi⟩ 0 socket pending).2 = [chunk]
      ∧ ((receive ⟨socketTcp, httparse, htmlUi⟩ 0 socket pending).1.1.state = .established
        ∨ (receive ⟨socketTcp, httparse, htmlUi⟩ 0 socket pending).1.1.state = .finWait1) := by
  have hcan : socketTcp.canRecv socket = true := decide_eq_true (by rw [hrx]; exact hne)
  have hread : socketTcp.recvSlice 1024 socket
      = (some chunk, { socket with rxBuffer := socket.rxBuffer.drop 1024 }) := by
    show (some (socket.rxBuffer.take 1024), _) = _
    rw [hrx, List.take_of_length_le hle]
  have hclose : ∀ s : Socket, s.state = .established ∨ s.state = .finWait1 →
      (s.close).state = .finWait1 := by
    intro s hs
    unfold Socket.close
    rcases hs with hs | hs <;> simp [hs]
  have hsend : ∀ r, (socketTcp.sendSlice r
      { socket with rxBuffer := socket.rxBuffer.drop 1024 }).state = socket.state :=
    fun r => socketTcp_lawful.sendSlice r _
  rw [receive, if_pos hcan, hread]
  dsimp only
  rw [if_neg hne]
  cases handleHttpRequest httparse htmlUi chunk with
  | none => exact ⟨rfl, hstate⟩
  | some answer =>
      obtain ⟨response, selection⟩ := answer
      have hclosed := hclose _ (by rw [hsend response]; exact hstate)
      cases selection with
      | none => exact ⟨rfl, Or.inr hclosed⟩
      | some sel => exact ⟨rfl, Or.inr hclosed⟩

theorem chunksOf_deliver (httparse : Httparse) (htmlUi : Str) (chunks : List Bytes)
    (h : ∀ chunk ∈ chunks, chunk ≠ [] ∧ chunk.length ≤ 1024) :
    chunksOf ((network ⟨socketTcp, httparse, htmlUi⟩).run (connected, .empty)
      (deliver chunks)).2 = chunks := by
  have hrun : ∀ (socket : Socket) (pending : Pending),
      socket.state = .established ∨ socket.state = .finWait1 →
      chunksOf ((network ⟨socketTcp, httparse, htmlUi⟩).run (socket, pending)
        (deliver chunks)).2 = chunks := by
    induction chunks with
    | nil => exact fun _ _ _ => rfl
    | cons chunk chunks ih =>
        intro socket pending hstate
        obtain ⟨hne, hle⟩ := h chunk List.mem_cons_self
        have ih := ih fun c hc => h c (List.mem_cons_of_mem _ hc)
        have hopen : reopen ⟨socketTcp, httparse, htmlUi⟩ { socket with rxBuffer := chunk }
            = { socket with rxBuffer := chunk } := by
          unfold reopen
          apply if_pos
          show (decide (socket.state ≠ .closed ∧ socket.state ≠ .timeWait)) = true
          rcases hstate with hstate | hstate <;> rw [hstate] <;> rfl
        obtain ⟨hchunk, hstate'⟩ := receive_deliver httparse htmlUi pending
          { socket with rxBuffer := chunk } rfl hne hle hstate
        have hstep : chunksOf (iterate ⟨socketTcp, httparse, htmlUi⟩ (socket, pending)
            ⟨0, fun s => { s with rxBuffer := chunk }⟩).2 = [chunk] := by
          rw [chunksOf_iterate]
          dsimp only
          rw [hopen, hchunk]
        have hstate'' : (iterate ⟨socketTcp, httparse, htmlUi⟩ (socket, pending)
            ⟨0, fun s => { s with rxBuffer := chunk }⟩).1.1.state = .established
              ∨ (iterate ⟨socketTcp, httparse, htmlUi⟩ (socket, pending)
                ⟨0, fun s => { s with rxBuffer := chunk }⟩).1.1.state = .finWait1 := by
          unfold iterate
          dsimp only
          rw [hopen]
          exact hstate'
        show chunksOf (_ ++ _) = _
        rw [chunksOf, List.filterMap_append]
        exact congrArg₂ (· ++ ·) hstep (ih _ _ hstate'')
  exact hrun connected .empty (Or.inl rfl)

/-! ### Independence of the cuts -/

/-- A stream, byte by byte. -/
def bytewise (stream : Bytes) : List Bytes := stream.map fun b => [b]

theorem segments_bytewise (stream : Bytes) : Segments stream (bytewise stream) := by
  constructor
  · induction stream with
    | nil => rfl
    | cons b stream ih => exact congrArg (b :: ·) ih
  · intro chunk hchunk
    obtain ⟨b, _, rfl⟩ := List.mem_map.mp hchunk
    exact ⟨List.cons_ne_nil b [], by simp⟩

/-- No byte by itself is answered. -/
theorem outcomeOf_bytewise {httparse : Httparse} (h : PathDelimited httparse) (htmlUi : Str)
    (stream : Bytes) : outcomeOf httparse htmlUi (bytewise stream) = (none, []) := by
  have hnone : (bytewise stream).filterMap (handleHttpRequest httparse htmlUi) = [] := by
    rw [List.filterMap_eq_nil_iff]
    intro chunk hchunk
    obtain ⟨b, _, rfl⟩ := List.mem_map.mp hchunk
    by_contra hanswered
    have hlength := two_le_of_answered h hanswered
    simp at hlength
  rw [outcomeOf, hnone]
  rfl

/-- **Which streams may be cut anywhere.**  Those, and only those, of which no block of at most
1024 bytes is answered, wherever it begins: for every other stream there is a cut after which it
gets a response, and one after which it gets none. -/
theorem segmentation_independent_iff (httparse : Httparse) (h : PathDelimited httparse)
    (htmlUi : Str) (stream : Bytes) :
    SegmentationIndependent httparse htmlUi stream
      ↔ ∀ block, block ≠ [] → block.length ≤ 1024 → block <:+: stream →
          handleHttpRequest httparse htmlUi block = none := by
  constructor
  · intro hindependent block hne hle hinfix
    obtain ⟨front, back, hstream⟩ := hinfix
    -- the block in one chunk, and everything else byte by byte
    have hcut : Segments stream (bytewise front ++ block :: bytewise back) := by
      constructor
      · rw [List.flatten_append, List.flatten_cons, (segments_bytewise front).1,
          (segments_bytewise back).1, ← List.append_assoc]
        exact hstream
      · intro chunk hchunk
        rcases List.mem_append.mp hchunk with hfront | hrest
        · exact (segments_bytewise front).2 chunk hfront
        · rcases List.mem_cons.mp hrest with rfl | hback
          · exact ⟨hne, hle⟩
          · exact (segments_bytewise back).2 chunk hback
    have hsame := hindependent Socket Socket socketTcp socketTcp connected connected
      (deliver (bytewise front ++ block :: bytewise back)) (deliver (bytewise stream))
      (by rw [chunksOf_deliver httparse htmlUi _ hcut.2]; exact hcut)
      (by
        rw [chunksOf_deliver httparse htmlUi _ (segments_bytewise stream).2]
        exact segments_bytewise stream)
    rw [outcome_run, outcome_run, chunksOf_deliver httparse htmlUi _ hcut.2,
      chunksOf_deliver httparse htmlUi _ (segments_bytewise stream).2,
      outcomeOf_bytewise h] at hsame
    have hresponses := List.head?_eq_none_iff.mp (congrArg Prod.fst hsame)
    rw [List.map_eq_nil_iff, List.filterMap_eq_nil_iff] at hresponses
    exact hresponses block (List.mem_append_right _ List.mem_cons_self)
  · intro hnone σ σ' tcp tcp' socket socket' inputs inputs' hsegments hsegments'
    have hempty : ∀ chunks, Segments stream chunks →
        outcomeOf httparse htmlUi chunks = (none, []) := by
      intro chunks hchunks
      have hanswers : chunks.filterMap (handleHttpRequest httparse htmlUi) = [] := by
        rw [List.filterMap_eq_nil_iff]
        intro chunk hchunk
        obtain ⟨hne, hle⟩ := hchunks.2 chunk hchunk
        apply hnone chunk hne hle
        rw [← hchunks.1]
        exact List.infix_of_mem_flatten hchunk
      rw [outcomeOf, hanswers]
      rfl
    rw [outcome_run, outcome_run, hempty _ hsegments, hempty _ hsegments']

/-- A parser that knows one request, whole, and what it has of it when it is cut in its path. -/
def cutHttparse : Httparse :=
  tableHttparse [post "/boot/windows", ("POST /boot/win", ⟨true, some "POST".toList, none⟩),
    ("dows HTTP/1.1\r\n\r\n", ⟨false, some "dows".toList, none⟩)]

theorem pathDelimited_table {table : List (String × Parsed)}
    (h : ∀ entry ∈ table, ∀ path, entry.2.path = some path →
      ∃ front back, encodeUtf8 entry.1.toList = front ++ 32 :: (encodeUtf8 path ++ 32 :: back)) :
    PathDelimited (tableHttparse table) := by
  intro n request path hpath
  unfold tableHttparse at hpath
  split at hpath
  · rename_i text parsed hfind
    have hrequest := List.find?_some hfind
    rw [decide_eq_true_eq] at hrequest
    rw [← hrequest]
    exact h _ (List.mem_of_find?_eq_some hfind) path hpath
  · cases hpath

theorem pathDelimited_cutHttparse : PathDelimited cutHttparse := by
  apply pathDelimited_table
  intro entry hentry path hpath
  simp only [List.mem_cons, List.not_mem_nil, or_false] at hentry
  rcases hentry with rfl | rfl | rfl
  · cases hpath
    exact ⟨encodeUtf8 "POST".toList, encodeUtf8 "HTTP/1.1\r\n\r\n".toList, by decide⟩
  · cases hpath
  · cases hpath

theorem request_is_not_independent :
    ¬ SegmentationIndependent cutHttparse []
      (encodeUtf8 "POST /boot/windows HTTP/1.1\r\n\r\n".toList) := by
  rw [segmentation_independent_iff cutHttparse pathDelimited_cutHttparse]
  intro hnone
  have hwhole := hnone (encodeUtf8 "POST /boot/windows HTTP/1.1\r\n\r\n".toList)
    (by decide) (by decide) List.infix_rfl
  exact absurd hwhole (by decide +kernel)

/-- **A request that is cut is lost.**  In one chunk it is answered and Windows is selected; cut in
its path, it gets no answer. -/
theorem cut_request_is_lost :
    outcome ((network ⟨socketTcp, cutHttparse, []⟩).run (connected, .empty)
        (deliver [encodeUtf8 "POST /boot/windows HTTP/1.1\r\n\r\n".toList])).2
        = (some (respondOk (encodeUtf8 "OK".toList) "text/plain"), [.windows])
      ∧ outcome ((network ⟨socketTcp, cutHttparse, []⟩).run (connected, .empty)
        (deliver [encodeUtf8 "POST /boot/win".toList,
          encodeUtf8 "dows HTTP/1.1\r\n\r\n".toList])).2 = (none, [])
      ∧ ¬ SegmentationIndependent cutHttparse []
        (encodeUtf8 "POST /boot/windows HTTP/1.1\r\n\r\n".toList) := by
  have hwhole : outcome ((network ⟨socketTcp, cutHttparse, []⟩).run (connected, .empty)
      (deliver [encodeUtf8 "POST /boot/windows HTTP/1.1\r\n\r\n".toList])).2
      = (some (respondOk (encodeUtf8 "OK".toList) "text/plain"), [.windows]) := by
    decide +kernel
  have hcut : outcome ((network ⟨socketTcp, cutHttparse, []⟩).run (connected, .empty)
      (deliver [encodeUtf8 "POST /boot/win".toList,
        encodeUtf8 "dows HTTP/1.1\r\n\r\n".toList])).2 = (none, []) := by
    decide +kernel
  refine ⟨hwhole, hcut, fun hindependent => ?_⟩
  have hsame := hindependent Socket Socket socketTcp socketTcp connected connected
    (deliver [encodeUtf8 "POST /boot/windows HTTP/1.1\r\n\r\n".toList])
    (deliver [encodeUtf8 "POST /boot/win".toList, encodeUtf8 "dows HTTP/1.1\r\n\r\n".toList])
    (by unfold Segments; decide +kernel) (by unfold Segments; decide +kernel)
  rw [hwhole, hcut] at hsame
  cases hsame

end WebUiBoot.Net
