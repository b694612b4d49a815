import WebUiBoot.Net.Socket

/-!
# The pending boot

Whether a boot is pending, and for what, can be read off what the task has done so far: it is the
selection that was accepted last, unless it has been booted.

* `latest` — the last event that accepts or boots;
* `PendingIs` / `iterate_good` — the state of the loop is what `latest` says, and every boot and
  every end of an iteration is right by it;
* `boots_follow_requests` — boots correspond to accepted requests;
* `deadline_from_last_request` — the deadline counts from the last request that was accepted;
* `request_postpones_boot` — a further request moves it.
-/

namespace WebUiBoot.Net

open WebUiBoot.Text WebUiBoot.Boot WebUiBoot.Web WebUiBoot.Trace

def Event.isAccepted : Event → Bool
  | .accepted _ _ => true
  | _ => false

def Event.isBooted : Event → Bool
  | .booted _ _ _ _ => true
  | _ => false

/-- The last event that accepts a selection or boots one. -/
def latest (events : List Event) : Option Event :=
  (events.filter fun e => e.isAccepted || e.isBooted).getLast?

/-- The state of the loop, from the last event that accepts or boots. -/
def pendingAfter : Option Event → Pending
  | some (.accepted selection ms) => ⟨some selection, some ms⟩
  | _ => .empty

/-- What holds of an event, from what came before it: a boot is one of the selection accepted last,
and not within 500 ms of it while the socket is busy; and when an iteration ends with a selection
pending, 500 ms have not passed since it was accepted. -/
def Right (past : List Event) : Event → Prop
  | .booted selection ms state sendQueue => ∃ t, latest past = some (.accepted selection t)
      ∧ (state ≠ .closed → state ≠ .timeWait → sendQueue ≠ 0 → t + 500 ≤ ms)
  | .done ms => ∀ selection t, latest past = some (.accepted selection t) → ms < t + 500
  | _ => True

/-- The trace is right, and the loop's state is what it says. -/
def Good (events : List Event) (pending : Pending) : Prop :=
  Always Right events ∧ pending = pendingAfter (latest events)

variable {σ : Type} {env : Env σ} {events : List Event} {pending : Pending}

theorem latest_append (events events' : List Event) :
    latest (events ++ events') = (latest events').or (latest events) := by
  rw [latest, List.filter_append, List.getLast?_append]
  rfl

/-- An event that neither accepts nor boots changes nothing. -/
theorem Good.snoc (h : Good events pending) {e : Event} (hright : Right events e)
    (hother : (e.isAccepted || e.isBooted) = false) : Good (events ++ [e]) pending := by
  refine ⟨always_append_singleton.mpr ⟨h.1, hright⟩, ?_⟩
  have hlatest : latest [e] = none := by
    rw [latest, List.filter_cons_of_neg (by rw [hother]; exact Bool.false_ne_true)]
    rfl
  rw [latest_append, hlatest]
  exact h.2

theorem Good.accept (h : Good events pending) (selection : BootSelection) (ms : ℕ) :
    Good (events ++ [.accepted selection ms]) ⟨some selection, some ms⟩ := by
  refine ⟨always_append_singleton.mpr ⟨h.1, trivial⟩, ?_⟩
  rw [latest_append]
  rfl

/-- While a boot is pending, its selection is the one accepted last. -/
theorem Good.latest_eq (h : Good events pending) {selection : BootSelection}
    (hboot : pending.boot = some selection) :
    ∃ t, pending.time = some t ∧ latest events = some (.accepted selection t) := by
  have hstate := h.2
  cases hlatest : latest events with
  | none =>
      rw [hstate, hlatest] at hboot
      cases hboot
  | some e =>
      rw [hlatest] at hstate
      cases e with
      | accepted selection' t =>
          subst hstate
          cases hboot
          exact ⟨t, rfl, rfl⟩
      | received | sent | booted | done =>
          subst hstate
          cases hboot

/-! ### The parts of an iteration -/

theorem Good.receive (h : Good events pending) (env : Env σ) (ms : ℕ) (socket : σ) :
    Good (events ++ (receive env ms socket pending).2) (receive env ms socket pending).1.2 := by
  have hnil : Good (events ++ []) pending := by
    rw [List.append_nil]
    exact h
  unfold Net.receive
  split
  · split
    · exact hnil
    · rename_i chunk socket' _
      split
      · exact hnil
      · have hreceived := h.snoc (e := .received chunk) trivial rfl
        cases handleHttpRequest env.httparse env.htmlUi chunk with
        | none => exact hreceived
        | some answer =>
            obtain ⟨response, selection⟩ := answer
            have hsent := hreceived.snoc (e := .sent response) trivial rfl
            rw [List.append_assoc] at hsent
            cases selection with
            | none => exact hsent
            | some sel =>
                have haccepted := hsent.accept sel ms
                rw [List.append_assoc] at haccepted
                exact haccepted
  · exact hnil

theorem Good.fire (h : Good events pending) (env : Env σ) (ms : ℕ) (socket : σ) :
    Good (events ++ (fire env ms socket pending).2) (fire env ms socket pending).1
      ∧ ∀ selection t, latest (events ++ (Net.fire env ms socket pending).2)
          = some (.accepted selection t) → ms < t + 500 := by
  have hnil : Good (events ++ []) pending := by
    rw [List.append_nil]
    exact h
  unfold Net.fire
  cases hboot : pending.boot with
  | none =>
      refine ⟨hnil, fun selection t hlatest => ?_⟩
      rw [List.append_nil] at hlatest
      have hstate := h.2
      rw [hlatest] at hstate
      rw [hstate] at hboot
      cases hboot
  | some sel =>
      obtain ⟨t, htime, hlatest⟩ := h.latest_eq hboot
      have helapsed : elapsed ms pending = ms - t := by
        rw [elapsed, htime]
        rfl
      dsimp only
      rw [helapsed]
      split
      · rename_i hfires
        constructor
        · refine ⟨always_append_singleton.mpr ⟨h.1, t, hlatest, fun hclosed htimeWait hqueue => ?_⟩,
            ?_⟩
          · rcases hfires with hfires | hfires | hfires | hfires
            · exact absurd hfires hclosed
            · exact absurd hfires htimeWait
            · exact absurd hfires.1 hqueue
            · omega
          · rw [latest_append]
            rfl
        · intro selection t' hlatest'
          rw [latest_append] at hlatest'
          cases hlatest'
      · rename_i hwaits
        refine ⟨hnil, fun selection t' hlatest' => ?_⟩
        rw [List.append_nil, hlatest] at hlatest'
        cases hlatest'
        simp only [not_or, not_le] at hwaits
        omega

/-- **One iteration.** -/
theorem iterate_good (h : Good events pending) (socket : σ) (input : Input σ) :
    Good (events ++ (iterate env (socket, pending) input).2)
      (iterate env (socket, pending) input).1.2 := by
  have hreceive := h.receive env input.ms (reopen env (input.poll socket))
  obtain ⟨hfire, hdeadline⟩ := hreceive.fire env input.ms
    (receive env input.ms (reopen env (input.poll socket)) pending).1.1
  have hdone := hfire.snoc (e := .done input.ms) hdeadline rfl
  show Good (events ++ (_ ++ _ ++ [.done input.ms])) _
  rw [← List.append_assoc, ← List.append_assoc]
  exact hdone

/-- **Any number of iterations.** -/
theorem network_good (env : Env σ) (socket : σ) (inputs : List (Input σ)) :
    Good ((network env).run (socket, .empty) inputs).2
      ((network env).run (socket, .empty) inputs).1.2 := by
  have hstart : Good [] Pending.empty := ⟨always_nil, rfl⟩
  exact (network env).run_invariant (I := fun events state => Good events state.2)
    (fun _ state input h => iterate_good h state.1 input) (s := (socket, .empty)) hstart inputs

/-! ### Boots and accepted requests -/

/-- Behind a boot, what is latest is later than the boot. -/
theorem exists_accepted_of_latest {before between : List Event} {e : Event}
    (hbooted : e.isBooted = true) {selection : BootSelection} {t : ℕ}
    (h : latest (before ++ e :: between) = some (.accepted selection t)) :
    ∃ e' ∈ between, e'.isAccepted = true := by
  have hkept : (e :: between).filter (fun e => e.isAccepted || e.isBooted)
      = e :: between.filter fun e => e.isAccepted || e.isBooted := by
    apply List.filter_cons_of_pos
    rw [hbooted, Bool.or_true]
  rw [latest_append, latest, hkept, List.getLast?_cons, Option.some_or, Option.some.injEq] at h
  cases hbehind : (between.filter fun e => e.isAccepted || e.isBooted).getLast? with
  | none =>
      rw [hbehind, Option.getD_none] at h
      rw [h] at hbooted
      cases hbooted
  | some e' =>
      rw [hbehind, Option.getD_some] at h
      have hmem := List.mem_of_getLast? hbehind
      rw [h] at hmem
      exact ⟨_, (List.mem_filter.mp hmem).1, rfl⟩

/-- Each boot uses up an accepted selection. -/
theorem countP_booted_le (h : Always Right events) :
    events.countP Event.isBooted + (if (pendingAfter (latest events)).boot.isSome then 1 else 0)
      ≤ events.countP Event.isAccepted := by
  induction events using List.reverseRecOn with
  | nil => exact Nat.le_refl 0
  | append_singleton events e ih =>
      obtain ⟨hpast, hright⟩ := always_append_singleton.mp h
      have ih := ih hpast
      rw [List.countP_append, List.countP_append, latest_append]
      cases e with
      | accepted selection t =>
          show _ + 0 + 1 ≤ _ + 1
          split at ih <;> omega
      | booted selection ms state sendQueue =>
          obtain ⟨t, hlatest, _⟩ := hright
          rw [hlatest] at ih
          exact ih
      | received | sent | done => exact ih

/-- **Boots correspond to accepted requests.**  After any number of iterations, whatever the clock,
the socket and the client do: selection and time are both there or both not; every boot is one of
the selection that was accepted last, and there is an acceptance between two boots; the accepted
requests are at least as many as the boots; and no boot comes within 500 ms of the latest accepted
request while the socket is neither closed nor in `TimeWait` and has bytes to send. -/
theorem boots_follow_requests (env : Env σ) (socket : σ) (inputs : List (Input σ)) :
    let after := (network env).run (socket, .empty) inputs
    after.1.2.boot.isSome = after.1.2.time.isSome
      ∧ (∀ past selection ms state sendQueue rest,
          after.2 = past ++ .booted selection ms state sendQueue :: rest →
          ∃ t, latest past = some (.accepted selection t)
            ∧ (state ≠ .closed → state ≠ .timeWait → sendQueue ≠ 0 → t + 500 ≤ ms))
      ∧ (∀ before e between e' rest, after.2 = before ++ e :: (between ++ e' :: rest) →
          e.isBooted = true → e'.isBooted = true → ∃ e'' ∈ between, e''.isAccepted = true)
      ∧ after.2.countP Event.isBooted ≤ after.2.countP Event.isAccepted := by
  intro after
  obtain ⟨hright, hstate⟩ : Good after.2 after.1.2 := network_good env socket inputs
  refine ⟨?_, ?_, ?_, ?_⟩
  · rw [hstate]
    cases latest after.2 with
    | none => rfl
    | some e => cases e <;> rfl
  · intro past selection ms state sendQueue rest heq
    exact hright past _ rest heq
  · intro before e between e' rest heq hbooted hbooted'
    rw [show before ++ e :: (between ++ e' :: rest) = (before ++ e :: between) ++ e' :: rest by
      simp] at heq
    have hboot := hright _ e' rest heq
    cases e' with
    | booted selection ms state sendQueue =>
        obtain ⟨t, hlatest, _⟩ := hboot
        exact exists_accepted_of_latest hbooted hlatest
    | received | sent | accepted | done => cases hbooted'
  · have hcount := countP_booted_le hright
    omega

/-! ### The deadline -/

/-- **The deadline.**  After any number of iterations, whatever the clock, the socket and the client
do: if a selection was accepted at the reading `t`, and an iteration with a reading of `t + 500` or
more has ended, a boot was fired in between, unless another selection was accepted in between. -/
theorem deadline_from_last_request (env : Env σ) (socket : σ) (inputs : List (Input σ))
    (before between rest : List Event) (selection : BootSelection) (t ms : ℕ)
    (hevents : ((network env).run (socket, .empty) inputs).2
      = before ++ .accepted selection t :: (between ++ .done ms :: rest))
    (hlast : ∀ e ∈ between, e.isAccepted = false) (hms : t + 500 ≤ ms) :
    ∃ e ∈ between, e.isBooted = true := by
  by_contra hnone
  obtain ⟨hright, _⟩ := network_good env socket inputs
  have hlatest : latest (before ++ .accepted selection t :: between)
      = some (.accepted selection t) := by
    have hempty : (between.filter fun e => e.isAccepted || e.isBooted) = [] := by
      rw [List.filter_eq_nil_iff]
      intro e he
      rw [hlast e he, Bool.false_or]
      exact fun hbooted => hnone ⟨e, he, hbooted⟩
    rw [latest_append, latest, List.filter_cons_of_pos (by rfl), hempty]
    rfl
  rw [show before ++ .accepted selection t :: (between ++ .done ms :: rest)
    = (before ++ .accepted selection t :: between) ++ .done ms :: rest by simp] at hevents
  have hdone := hright _ (.done ms) rest hevents selection t hlatest
  omega

/-- With this parser only a whole request to boot Windows is parsed. -/
def windowsOnly : Env Socket := ⟨socketTcp, tableHttparse [post "/boot/windows"], []⟩

/-- A client connects and sends a request at 10 ms; at 400 ms it sends another one on the same
connection.  It acknowledges nothing. -/
def twoRequests (last : ℕ) : List (Input Socket) :=
  [⟨0, id⟩,
    ⟨10, fun s => arrive "POST /boot/windows HTTP/1.1\r\n\r\n" { s with state := .established }⟩,
    ⟨400, arrive "POST /boot/windows HTTP/1.1\r\n\r\n"⟩,
    ⟨last, id⟩]

/-- With a last reading of 900 ms the second selection is booted. -/
theorem deadline_from_last_request_900 :
    ∃ e ∈ [Event.done 400, .booted .windows 900 .finWait1 85], e.isBooted = true :=
  deadline_from_last_request windowsOnly ⟨.closed, [], 0⟩ (twoRequests 900)
    (((network windowsOnly).run (⟨.closed, [], 0⟩, .empty) (twoRequests 900)).2.take 7)
    [.done 400, .booted .windows 900 .finWait1 85] [] .windows 400 900
    (by decide +kernel) (by decide) (by decide)

/-- The deadline of a selection that is accepted when none is pending, whatever is accepted after
it. -/
def HardDeadline (events : List Event) : Prop :=
  ∀ before between rest selection t ms,
    events = before ++ .accepted selection t :: (between ++ .done ms :: rest) →
    (pendingAfter (latest before)).boot = none → t + 500 ≤ ms →
      ∃ e ∈ between, e.isBooted = true

/-- **A request postpones the boot.**  Accepted at 10 ms, nothing is booted by 510 ms. -/
theorem request_postpones_boot :
    ¬ HardDeadline ((network windowsOnly).run (⟨.closed, [], 0⟩, .empty) (twoRequests 510)).2 := by
  intro h
  have hbooted := h
    (((network windowsOnly).run (⟨.closed, [], 0⟩, .empty) (twoRequests 510)).2.take 3)
    ((((network windowsOnly).run (⟨.closed, [], 0⟩, .empty) (twoRequests 510)).2.drop 4).take 5)
    [] .windows 10 510 (by decide +kernel) (by decide +kernel) (by decide)
  exact absurd hbooted (by decide +kernel)

end WebUiBoot.Net
