import WebUiBoot.Lib.Trace

/-!
# Sending a frame

`UefiTxToken::consume` of `src/net.rs`.  The card sends a frame from the buffer it was given, at a
time of its own, so the buffer has to stay allocated until the card hands it back.

* `consume` / `recycle` — the function up to its loop, and one turn of the loop;
* `transmitter` — any sequence of calls, with any answers of the card;
* `frames_kept_iff` — the card owns no released buffer at any time exactly when no loop meets the
  answers *none yet* and *error*.

The token borrows the device exclusively, so calls follow one another.
-/

namespace WebUiBoot.Net.Transmit

open WebUiBoot.Trace

/-- Where a buffer is: what `as_ptr` returns. -/
abbrev Address := ℕ

/-- The arguments of `consume`: a length, and a closure that fills a buffer and returns a value. -/
structure Frame (R : Type*) where
  len : ℕ
  fill : List UInt8 → R × List UInt8
  length_fill : ∀ buffer, (fill buffer).2.length = buffer.length

/-- What `get_recycled_transmit_buffer_status` returns. -/
inductive Answer
  /-- `Ok(Some(recycled))`. -/
  | recycled (buffer : Address)
  /-- `Ok(None)`: no buffer has been sent yet. -/
  | notYet
  | error
  deriving DecidableEq, Repr

/-- The card: the buffers it was given and has not handed back, and the frames it accepted. -/
structure Card where
  owned : List Address
  accepted : List (List UInt8)

def Card.transmit (card : Card) (buffer : Address) (bytes : List UInt8) : Card :=
  ⟨card.owned ++ [buffer], card.accepted ++ [bytes]⟩

def Card.handBack (card : Card) : Answer → Card
  | .recycled buffer => { card with owned := card.owned.erase buffer }
  | .notYet => card
  | .error => card

/-- The card, and the call of `consume` that is in its loop: its buffer and what it will return. -/
structure State (R : Type*) where
  card : Card
  call : Option (Address × R)

variable {R : Type*}

def State.new : State R := ⟨⟨[], []⟩, none⟩

/-- The transmit buffers that have not been released. -/
def State.allocated (s : State R) : List Address := s.call.toList.map Prod.fst

inductive Event (R : Type*)
  /-- `consume` returns, and releases its buffer. -/
  | returned (buffer : Address) (result : R)

inductive Input (R : Type*)
  /-- A call, the address that its buffer gets, and whether `snp.transmit` succeeds. -/
  | consume (frame : Frame R) (buffer : Address) (transmits : Bool)
  /-- The card answers to `get_recycled_transmit_buffer_status`. -/
  | status (answer : Answer)

/-- `consume` up to its loop. -/
def consume (s : State R) (frame : Frame R) (buffer : Address) (transmits : Bool) :
    State R × List (Event R) :=
  let r := frame.fill (List.replicate frame.len 0)
  if transmits then (⟨s.card.transmit buffer r.2, some (buffer, r.1)⟩, [])
  else (⟨s.card, none⟩, [.returned buffer r.1])

/-- One turn of the loop of a call with this buffer and result. -/
def recycle (card : Card) (buffer : Address) (result : R) (answer : Answer) :
    State R × List (Event R) :=
  let card := card.handBack answer
  match answer with
  | .recycled recycled =>
      if recycled = buffer then (⟨card, none⟩, [.returned buffer result])
      else (⟨card, some (buffer, result)⟩, [])
  | .notYet => (⟨card, none⟩, [.returned buffer result])
  | .error => (⟨card, none⟩, [.returned buffer result])

/-- Calls of `consume`, one after the other, and the answers of the card to them. -/
def transmitter : Machine (State R) (Input R) (Event R) where
  step s i :=
    match s.call, i with
    | none, .consume frame buffer transmits => consume s frame buffer transmits
    | some (buffer, result), .status answer => recycle s.card buffer result answer
    | none, .status _ => (s, [])
    | some _, .consume _ _ _ => (s, [])

/-- No loop is told that no buffer has been sent yet, or meets an error. -/
def Patient (s : State R) : Input R → Prop
  | .consume _ _ _ => True
  | .status answer => s.call.isSome → ∃ buffer, answer = .recycled buffer

/-- No buffer that the card owns has been released. -/
def Kept (s : State R) : Prop := ∀ buffer ∈ s.card.owned, buffer ∈ s.allocated

/-- The card owns the buffer of the call in its loop, and no other. -/
def Tracked (s : State R) : Prop := s.card.owned = s.allocated

theorem Tracked.kept {s : State R} (h : Tracked s) : Kept s := by
  intro buffer hbuffer
  rwa [← h]

theorem Tracked.step {s : State R} (h : Tracked s) (i : Input R) (hpatient : Patient s i) :
    Tracked (transmitter.step s i).1 := by
  obtain ⟨card, call⟩ := s
  cases call with
  | none =>
      cases i with
      | status answer => exact h
      | consume frame buffer transmits =>
          have hnone : card.owned = [] := h
          cases transmits with
          | false => exact hnone
          | true =>
              show card.owned ++ [buffer] = [buffer]
              rw [hnone, List.nil_append]
  | some call =>
      obtain ⟨buffer, result⟩ := call
      cases i with
      | consume frame buffer' transmits => exact h
      | status answer =>
          have hone : card.owned = [buffer] := h
          obtain ⟨recycled, rfl⟩ := hpatient rfl
          show Tracked (recycle card buffer result (.recycled recycled)).1
          unfold recycle
          dsimp only
          by_cases hours : recycled = buffer
          · rw [if_pos hours]
            show card.owned.erase recycled = []
            rw [hone, hours, List.erase_cons_head]
          · rw [if_neg hours]
            show card.owned.erase recycled = [buffer]
            rw [hone, List.erase_of_not_mem]
            exact fun hmem => hours (List.mem_singleton.mp hmem)

/-- Giving up the loop gives up a buffer that the card owns. -/
theorem Tracked.patient_of_kept {s : State R} (h : Tracked s) (i : Input R)
    (hkept : Kept (transmitter.step s i).1) : Patient s i := by
  obtain ⟨card, call⟩ := s
  cases i with
  | consume frame buffer transmits => trivial
  | status answer =>
      intro hcall
      obtain ⟨⟨buffer, result⟩, rfl⟩ := Option.isSome_iff_exists.mp hcall
      have hone : card.owned = [buffer] := h
      have howned : buffer ∈ card.owned := hone ▸ List.mem_singleton_self buffer
      cases answer with
      | recycled recycled => exact ⟨recycled, rfl⟩
      | notYet => exact absurd (hkept buffer howned) List.not_mem_nil
      | error => exact absurd (hkept buffer howned) List.not_mem_nil

/-- A call that returns leaves no transmit buffer allocated. -/
theorem allocated_of_returned {s : State R} {i : Input R} {buffer : Address} {result : R}
    (h : .returned buffer result ∈ (transmitter.step s i).2) :
    (transmitter.step s i).1.allocated = [] := by
  obtain ⟨card, call⟩ := s
  cases call with
  | none =>
      cases i with
      | status answer => exact absurd h List.not_mem_nil
      | consume frame buffer' transmits =>
          cases transmits with
          | false => rfl
          | true => exact absurd h List.not_mem_nil
  | some call =>
      obtain ⟨buffer', result'⟩ := call
      cases i with
      | consume frame buffer'' transmits => exact absurd h List.not_mem_nil
      | status answer =>
          change _ ∈ (recycle card buffer' result' answer).2 at h
          show (recycle card buffer' result' answer).1.allocated = []
          cases answer with
          | notYet => rfl
          | error => rfl
          | recycled recycled =>
              unfold recycle at h ⊢
              dsimp only at h ⊢
              by_cases hours : recycled = buffer'
              · rw [if_pos hours]
                rfl
              · rw [if_neg hours] at h
                exact absurd h List.not_mem_nil

/-- **When buffers are given up in time.**  For all sequences of frames and of answers of the card:
at every point of the run the buffers that the card owns are allocated, and when `consume` returns
the card does not own its buffer, exactly when no loop meets the answers *none yet* and *error*. -/
theorem frames_kept_iff (inputs : List (Input R)) :
    ((∀ is, is <+: inputs → Kept (transmitter.run .new is).1)
        ∧ ∀ is i, is ++ [i] <+: inputs → ∀ buffer result,
          .returned buffer result ∈ (transmitter.step (transmitter.run .new is).1 i).2 →
            buffer ∉ (transmitter.step (transmitter.run .new is).1 i).1.card.owned)
      ↔ transmitter.Along Patient .new inputs := by
  have hrule := transmitter.safe_iff_along (I := Tracked) (Q := Kept) (P := Patient (R := R))
    (fun s h => h.kept) (fun s i h => h.step i) (fun s i h => h.patient_of_kept i) inputs .new rfl
  rw [← hrule]
  refine ⟨And.left, fun hkept => ⟨hkept, fun is i his buffer result hreturned hmem => ?_⟩⟩
  have hafter := hkept (is ++ [i]) his
  rw [Machine.run_append, Machine.run_singleton] at hafter
  have hmem := hafter buffer hmem
  rw [allocated_of_returned hreturned] at hmem
  exact List.not_mem_nil hmem

/-- A frame of one byte, and a card that has not sent it yet when it is asked. -/
def slowCard : List (Input Unit) :=
  [.consume ⟨1, fun buffer => ((), buffer), fun _ => rfl⟩ 4096 true, .status .notYet]

/-- **A buffer in use is given up.**  `consume` returns at the answer *none yet*, while the card
owns its buffer. -/
theorem slow_card_loses_buffer :
    (transmitter.run .new slowCard).2 = [.returned 4096 ()]
      ∧ (transmitter.run .new slowCard).1.card.owned = [4096]
      ∧ (transmitter.run .new slowCard).1.allocated = []
      ∧ ¬ Kept (transmitter.run .new slowCard).1 := by
  refine ⟨rfl, rfl, rfl, fun h => ?_⟩
  exact List.not_mem_nil (h 4096 (List.mem_singleton_self 4096))

end WebUiBoot.Net.Transmit
