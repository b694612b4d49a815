import WebUiBoot.Net.Pending

/-!
# Can a client wedge the server?

The loop closes the socket only when it has answered, and listens again only when the socket is
closed.

* `Wedged` — the peer has closed its side, everything is read, and nothing will happen any more;
* `ReleasedBy` — the iterations behind which the socket is not wedged;
* `never_wedged_iff` — over whole runs;
* `stray_connection_wedges` — a client that connects and leaves disables the server for good.
-/

namespace WebUiBoot.Net

open WebUiBoot.Text WebUiBoot.Boot WebUiBoot.Web WebUiBoot.Trace

variable {σ : Type}

def Wedged (tcp : Tcp σ) (s : σ) : Prop := tcp.state s = .closeWait ∧ tcp.rxBuffer s = []

/-- If the peer has closed its side by now, then there is more to read than is read at once, or
what there is to read is answered. -/
def ReleasedBy (env : Env σ) (state : σ × Pending) (input : Input σ) : Prop :=
  env.tcp.state (input.poll state.1) = .closeWait →
    1024 < (env.tcp.rxBuffer (input.poll state.1)).length
      ∨ handleHttpRequest env.httparse env.htmlUi (env.tcp.rxBuffer (input.poll state.1)) ≠ none
        ∧ env.tcp.rxBuffer (input.poll state.1) ≠ []

variable {env : Env σ} {ms : ℕ} {socket : σ} {pending : Pending}

/-! ### What is received -/

theorem receive_nil (h : env.tcp.Lawful) (hrx : env.tcp.rxBuffer socket = []) :
    (receive env ms socket pending).1.1 = socket := by
  have hcan : ¬ env.tcp.canRecv socket = true := by
    rw [h.canRecv, hrx]
    exact fun hne => hne rfl
  rw [receive, if_neg hcan]

/-- There is something to read: without an answer it is dropped, and with one the socket is
closed. -/
theorem receive_chunk (h : env.tcp.Lawful) (hrx : env.tcp.rxBuffer socket ≠ []) (ms : ℕ)
    (pending : Pending) :
    match handleHttpRequest env.httparse env.htmlUi ((env.tcp.rxBuffer socket).take 1024) with
    | none => env.tcp.state (receive env ms socket pending).1.1 = env.tcp.state socket
        ∧ env.tcp.rxBuffer (receive env ms socket pending).1.1
          = (env.tcp.rxBuffer socket).drop 1024
    | some _ => ∃ s, (receive env ms socket pending).1.1 = env.tcp.close s := by
  obtain ⟨hread, hrest, hstate⟩ := h.recvSlice 1024 socket hrx
  have hchunk : (env.tcp.rxBuffer socket).take 1024 ≠ [] := by
    intro hnil
    rw [List.take_eq_nil_iff] at hnil
    rcases hnil with hnil | hnil
    · omega
    · exact hrx hnil
  have hpair : env.tcp.recvSlice 1024 socket
      = (some ((env.tcp.rxBuffer socket).take 1024), (env.tcp.recvSlice 1024 socket).2) :=
    Prod.ext hread rfl
  have hreceive : receive env ms socket pending
      = match handleHttpRequest env.httparse env.htmlUi ((env.tcp.rxBuffer socket).take 1024) with
        | none => (((env.tcp.recvSlice 1024 socket).2, pending),
            [.received ((env.tcp.rxBuffer socket).take 1024)])
        | some (response, none) =>
            ((env.tcp.close (env.tcp.sendSlice response (env.tcp.recvSlice 1024 socket).2), pending),
              [.received ((env.tcp.rxBuffer socket).take 1024), .sent response])
        | some (response, some sel) =>
            ((env.tcp.close (env.tcp.sendSlice response (env.tcp.recvSlice 1024 socket).2),
                ⟨some sel, some ms⟩),
              [.received ((env.tcp.rxBuffer socket).take 1024), .sent response,
                .accepted sel ms]) := by
    rw [receive, if_pos ((h.canRecv socket).mpr hrx), hpair]
    dsimp only
    rw [if_neg hchunk]
    cases handleHttpRequest env.httparse env.htmlUi ((env.tcp.rxBuffer socket).take 1024) with
    | none => rfl
    | some answer =>
        obtain ⟨response, selection⟩ := answer
        cases selection <;> rfl
  rw [hreceive]
  cases handleHttpRequest env.httparse env.htmlUi ((env.tcp.rxBuffer socket).take 1024) with
  | none => exact ⟨hstate, hrest⟩
  | some answer =>
      obtain ⟨response, selection⟩ := answer
      cases selection with
      | none => exact ⟨_, rfl⟩
      | some sel => exact ⟨_, rfl⟩

/-- Nothing in an iteration makes the socket `CloseWait`. -/
theorem receive_state_ne (h : env.tcp.Lawful) (hstate : env.tcp.state socket ≠ .closeWait) :
    env.tcp.state (receive env ms socket pending).1.1 ≠ .closeWait := by
  by_cases hrx : env.tcp.rxBuffer socket = []
  · rw [receive_nil h hrx]
    exact hstate
  · have hchunk := receive_chunk h hrx ms pending
    split at hchunk
    · rw [hchunk.1]
      exact hstate
    · obtain ⟨s, hs⟩ := hchunk
      rw [hs]
      exact h.close s

/-! ### One iteration -/

/-- A socket that the client has closed its side of is open, and not listened with again. -/
theorem reopen_of_closeWait (h : env.tcp.Lawful) (hstate : env.tcp.state socket = .closeWait) :
    reopen env socket = socket := by
  have hisOpen : env.tcp.isOpen socket = true := by
    rw [← Bool.not_eq_false, h.isOpen, hstate]
    decide
  rw [reopen, if_pos hisOpen]

theorem reopen_state_ne (h : env.tcp.Lawful) (hstate : env.tcp.state socket ≠ .closeWait) :
    env.tcp.state (reopen env socket) ≠ .closeWait := by
  unfold reopen
  split
  · exact hstate
  · rename_i hopen
    rw [Bool.not_eq_true] at hopen
    rw [h.listen socket hopen]
    decide

/-- What is received from a client that has closed its side. -/
theorem not_wedged_receive_iff (h : env.tcp.Lawful)
    (hstate : env.tcp.state socket = .closeWait) (ms : ℕ) (pending : Pending) :
    ¬ Wedged env.tcp (receive env ms socket pending).1.1
      ↔ 1024 < (env.tcp.rxBuffer socket).length
        ∨ (handleHttpRequest env.httparse env.htmlUi (env.tcp.rxBuffer socket) ≠ none
          ∧ env.tcp.rxBuffer socket ≠ []) := by
  by_cases hrx : env.tcp.rxBuffer socket = []
  · rw [receive_nil h hrx, hrx]
    refine iff_of_false (fun hn => hn ⟨hstate, hrx⟩) fun hreleased => ?_
    rcases hreleased with hlong | hanswered
    · simp at hlong
    · exact hanswered.2 rfl
  · have hchunk := receive_chunk h hrx ms pending
    by_cases hlong : 1024 < (env.tcp.rxBuffer socket).length
    · refine iff_of_true (fun hwedged => ?_) (Or.inl hlong)
      split at hchunk
      · have hdrop := hwedged.2
        rw [hchunk.2, List.drop_eq_nil_iff] at hdrop
        omega
      · obtain ⟨s', hs'⟩ := hchunk
        rw [hs'] at hwedged
        exact h.close s' hwedged.1
    · rw [List.take_of_length_le (by omega)] at hchunk
      cases hanswer : handleHttpRequest env.httparse env.htmlUi (env.tcp.rxBuffer socket) with
      | none =>
          rw [hanswer] at hchunk
          refine iff_of_false (fun hn => hn ⟨hchunk.1.trans hstate, ?_⟩) fun hreleased => ?_
          · rw [hchunk.2, List.drop_eq_nil_iff]
            omega
          · rcases hreleased with hlong' | hanswered
            · exact hlong hlong'
            · exact hanswered.1 rfl
      | some answer =>
          rw [hanswer] at hchunk
          obtain ⟨s', hs'⟩ := hchunk
          refine iff_of_true (fun hwedged => ?_) (Or.inr ⟨Option.some_ne_none _, hrx⟩)
          rw [hs'] at hwedged
          exact h.close s' hwedged.1

/-- **One iteration.** -/
theorem not_wedged_iff (h : env.tcp.Lawful) (state : σ × Pending) (input : Input σ) :
    ¬ Wedged env.tcp (iterate env state input).1.1 ↔ ReleasedBy env state input := by
  show ¬ Wedged env.tcp
    (receive env input.ms (reopen env (input.poll state.1)) state.2).1.1 ↔ _
  unfold ReleasedBy
  by_cases hstate : env.tcp.state (input.poll state.1) = .closeWait
  · rw [reopen_of_closeWait h hstate, forall_prop_of_true hstate]
    exact not_wedged_receive_iff h hstate input.ms state.2
  · refine iff_of_true (fun hwedged => ?_) fun hcloseWait => absurd hcloseWait hstate
    exact receive_state_ne h (reopen_state_ne h hstate) hwedged.1

/-! ### Whole runs -/

/-- **When no client wedges the server.**  Over any run: the socket is not wedged at the end of any
iteration if and only if, in every iteration that finds it in `CloseWait`, there are more than 1024
bytes to read or those there are, one at least, are answered. -/
theorem never_wedged_iff (env : Env σ) (h : env.tcp.Lawful) (socket : σ)
    (inputs : List (Input σ)) :
    (network env).Along (fun state input => ¬ Wedged env.tcp ((network env).step state input).1.1)
        (socket, .empty) inputs
      ↔ (network env).Along (ReleasedBy env) (socket, .empty) inputs :=
  (network env).along_congr (not_wedged_iff h) inputs (socket, .empty)

/-- A client that sends a whole request, and closes its side with it, is answered. -/
theorem answered_client_never_wedges :
    (network windowsOnly).Along
      (fun state input => ¬ Wedged windowsOnly.tcp ((network windowsOnly).step state input).1.1)
      (⟨.listen, [], 0⟩, .empty)
      [⟨0, fun s => arrive "POST /boot/windows HTTP/1.1\r\n\r\n" { s with state := .closeWait }⟩] := by
  rw [never_wedged_iff windowsOnly socketTcp_lawful]
  refine ⟨fun _ => Or.inr ?_, trivial⟩
  exact ⟨by decide +kernel, by decide +kernel⟩

/-- A client connects, and closes its side without having sent anything. -/
def strayConnection : List (Input Socket) :=
  [⟨0, id⟩, ⟨10, fun s => { s with state := .established }⟩,
    ⟨20, fun s => { s with state := .closeWait }⟩]

/-- **A stray connection.**  Behind it the socket is wedged, and it stays so however many
iterations follow. -/
theorem stray_connection_wedges :
    Wedged socketTcp ((network windowsOnly).run (⟨.closed, [], 0⟩, .empty) strayConnection).1.1
      ∧ ∀ later : List ℕ, Wedged socketTcp
        ((network windowsOnly).run (⟨.closed, [], 0⟩, .empty)
          (strayConnection ++ later.map fun ms => ⟨ms, id⟩)).1.1 := by
  have hstays : ∀ later : List ℕ,
      ((network windowsOnly).run (⟨.closeWait, [], 0⟩, .empty)
        (later.map fun ms => ⟨ms, id⟩)).1 = (⟨.closeWait, [], 0⟩, .empty) := by
    intro later
    induction later with
    | nil => rfl
    | cons ms later ih => exact ih
  refine ⟨⟨rfl, rfl⟩, fun later => ?_⟩
  rw [Machine.run_append]
  show Wedged socketTcp ((network windowsOnly).run (⟨.closeWait, [], 0⟩, .empty) _).1.1
  rw [hstays]
  exact ⟨rfl, rfl⟩

end WebUiBoot.Net
