import WebUiBoot.Net.Pending

/-!
# Finished connections

At the end of an iteration of `run_network` in `src/main.rs` a pending boot is fired when the socket
is in `Closed` or `TimeWait`.  By then a socket that `iface.poll` has left in one of these states
listens again.

* `Tcp.Resets` — a socket that listens has nothing to be read and nothing to be sent;
* `iterate_of_finished` — what an iteration with such a socket does;
* `finished_connection_fires_iff` — the boot is fired exactly when it has waited for 100 ms;
* `reset_connection_waits` — a connection that is reset.
-/

namespace WebUiBoot.Net

open WebUiBoot.Text WebUiBoot.Boot WebUiBoot.Web WebUiBoot.Trace

variable {σ : Type} {env : Env σ}

/-- `listen` resets the socket: its buffers are cleared. -/
def Tcp.Resets (tcp : Tcp σ) : Prop :=
  ∀ s, tcp.isOpen s = false → tcp.rxBuffer (tcp.listen s) = [] ∧ tcp.sendQueue (tcp.listen s) = 0

theorem socketTcp_resets : socketTcp.Resets := by
  intro s h
  have hlisten : socketTcp.listen s = ⟨.listen, [], 0⟩ :=
    if_neg (by rw [show s.isOpen = false from h]; exact Bool.false_ne_true)
  rw [hlisten]
  exact ⟨rfl, rfl⟩

/-- A socket that is to be listened with again. -/
def FinishedBy (tcp : Tcp σ) (socket : σ) (input : Input σ) : Prop :=
  tcp.state (input.poll socket) = .closed ∨ tcp.state (input.poll socket) = .timeWait

/-- **An iteration with a finished connection.**  Nothing is received, and the test at the end sees a
socket that listens. -/
theorem iterate_of_finished (h : env.tcp.Lawful) (hresets : env.tcp.Resets) {socket : σ}
    {input : Input σ} (hfinished : FinishedBy env.tcp socket input) (pending : Pending) :
    (iterate env (socket, pending) input).2
      = (match pending.boot with
          | none => []
          | some sel =>
              if 100 ≤ elapsed input.ms pending then [.booted sel input.ms .listen 0] else [])
        ++ [.done input.ms] := by
  have hopen : env.tcp.isOpen (input.poll socket) = false := (h.isOpen _).mpr hfinished
  have hreopen : reopen env (input.poll socket) = env.tcp.listen (input.poll socket) := by
    rw [reopen, hopen]
    rfl
  have hstate := h.listen _ hopen
  obtain ⟨hrx, hqueue⟩ := hresets _ hopen
  have hreceive : receive env input.ms (env.tcp.listen (input.poll socket)) pending
      = ((env.tcp.listen (input.poll socket), pending), []) := by
    have hcanRecv : ¬ env.tcp.canRecv (env.tcp.listen (input.poll socket)) = true := by
      rw [h.canRecv, not_not]
      exact hrx
    exact if_neg hcanRecv
  show (receive env input.ms (reopen env (input.poll socket)) pending).2
    ++ (fire env input.ms (receive env input.ms (reopen env (input.poll socket)) pending).1.1
        (receive env input.ms (reopen env (input.poll socket)) pending).1.2).2
    ++ [.done input.ms] = _
  rw [hreopen, hreceive, List.nil_append]
  congr 1
  unfold fire
  cases hboot : pending.boot with
  | none => rfl
  | some sel =>
      dsimp only
      rw [hstate, hqueue]
      by_cases helapsed : 100 ≤ elapsed input.ms pending
      · rw [if_pos helapsed, if_pos (Or.inr (Or.inr (Or.inl ⟨rfl, helapsed⟩)))]
      · have hwaits : ¬ (TcpState.listen = .closed ∨ TcpState.listen = .timeWait
            ∨ (0 = 0 ∧ 100 ≤ elapsed input.ms pending) ∨ 500 ≤ elapsed input.ms pending) := by
          simp only [reduceCtorEq, false_or, true_and, not_or]
          omega
        rw [if_neg helapsed, if_neg hwaits]

/-- **When a finished connection releases the boot.**  For every iteration with a boot pending in
which `iface.poll` leaves the socket in `Closed` or `TimeWait`, whatever is in its buffers: the boot
is fired in that iteration exactly when 100 ms have passed since it was accepted. -/
theorem finished_connection_fires_iff (env : Env σ) (h : env.tcp.Lawful)
    (hresets : env.tcp.Resets) (socket : σ) (pending : Pending) (input : Input σ)
    (sel : BootSelection) (hpending : pending.boot = some sel)
    (hfinished : FinishedBy env.tcp socket input) :
    (∃ state sendQueue,
        .booted sel input.ms state sendQueue ∈ (iterate env (socket, pending) input).2)
      ↔ 100 ≤ elapsed input.ms pending := by
  rw [iterate_of_finished h hresets hfinished pending, hpending]
  dsimp only
  by_cases helapsed : 100 ≤ elapsed input.ms pending
  · rw [if_pos helapsed]
    exact iff_of_true ⟨.listen, 0, List.mem_cons_self⟩ helapsed
  · rw [if_neg helapsed]
    refine iff_of_false ?_ helapsed
    rintro ⟨state, sendQueue, hmem⟩
    simp at hmem

/-- The client's connection is reset. -/
def resetConnection (ms : ℕ) : Input Socket := ⟨ms, fun s => { s with state := .closed }⟩

/-- The loop behind a request that was accepted at 10 ms. -/
def acceptedAt10 : Socket × Pending :=
  ((network windowsOnly).run (⟨.closed, [], 0⟩, .empty) ((twoRequests 0).take 2)).1

/-- At 110 ms the boot is fired. -/
theorem finished_connection_fires_at_110 :
    (∃ state sendQueue, .booted .windows 110 state sendQueue
        ∈ (iterate windowsOnly (acceptedAt10.1, acceptedAt10.2) (resetConnection 110)).2)
      ↔ 100 ≤ elapsed 110 acceptedAt10.2 :=
  finished_connection_fires_iff windowsOnly socketTcp_lawful socketTcp_resets acceptedAt10.1
    acceptedAt10.2 (resetConnection 110) .windows (by decide +kernel) (Or.inl rfl)

/-- **A connection that is reset.**  At 50 ms the boot is pending, the poll leaves the socket closed,
and nothing is fired. -/
theorem reset_connection_waits :
    acceptedAt10.2.boot = some .windows
      ∧ socketTcp.state ((resetConnection 50).poll acceptedAt10.1) = .closed
      ∧ (iterate windowsOnly acceptedAt10 (resetConnection 50)).2 = [.done 50]
      ∧ ¬ ∃ state sendQueue, .booted .windows 50 state sendQueue
          ∈ (iterate windowsOnly acceptedAt10 (resetConnection 50)).2 := by
  have hevents : (iterate windowsOnly acceptedAt10 (resetConnection 50)).2 = [.done 50] := by
    decide +kernel
  refine ⟨by decide +kernel, rfl, hevents, ?_⟩
  rw [hevents]
  simp

end WebUiBoot.Net
