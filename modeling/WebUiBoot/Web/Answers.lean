import Mathlib.Data.Nat.Digits.Defs
import WebUiBoot.Web.Response

/-!
# The answers of the web server

The responses that `handle_http_request` of `src/web.rs` makes, as a client gets them.

* `Answered` / `answered_of_handle` — there are three of them, and each goes with a selection;
* `Answered.read_back` — a client reads each of them back, with its length;
* `Answered.length_le` — and the page decides how much room they take.
-/

namespace WebUiBoot.Web

open WebUiBoot.Text WebUiBoot.Boot WebUiBoot.Framing

/-- The responses, with what they accept. -/
inductive Answered (htmlUi : Str) : Str → Option BootSelection → Prop
  | page : Answered htmlUi (respondOk (encodeUtf8 htmlUi) "text/html") none
  | accepted (selection : BootSelection) :
      Answered htmlUi (respondOk (encodeUtf8 "OK".toList) "text/plain") (some selection)
  | notFound : Answered htmlUi respondNotFound none

theorem answered_of_handle {httparse : Httparse} {htmlUi : Str} {request : Bytes} {response : Str}
    {selection : Option BootSelection}
    (h : handleHttpRequest httparse htmlUi request = some (response, selection)) :
    Answered htmlUi response selection := by
  unfold handleHttpRequest at h
  dsimp only at h
  split at h
  · cases h
  · split at h
    · split at h
      · cases h
        exact .page
      · split at h
        · cases h
          exact .accepted .windows
        · split at h
          · cases h
            exact .accepted .linux
          · cases h
            exact .notFound
    · cases h

/-! ### Reading an answer -/

/-- A message whose length is what it says, or that says none and has no body. -/
structure Message.Whole (m : Message) : Prop where
  close : ("Connection".toList, "close".toList) ∈ m.headers
  length : (∃ value, ("Content-Length".toList, value) ∈ m.headers
      ∧ value = (toString m.body.length).toList)
    ∨ ((∀ h ∈ m.headers, h.1 ≠ "Content-Length".toList) ∧ m.body = [])

/-- The answers that have a body. -/
theorem respondOk_read_back {t : Str} (contentType : String)
    (h : ¬ ['\r', '\n'] <:+: contentType.toList) :
    ∃ m, readMessage (respondOk (encodeUtf8 t) contentType) = some m ∧ m.Whole
      ∧ m.body = encodeUtf8 t := by
  let r : Response :=
    ((Response.new 200 "OK".toList).header "Connection".toList "close".toList).withBody
      (encodeUtf8 t) contentType.toList
  have hheaders : r.headers = [("Connection".toList, "close".toList),
      ("Content-Type".toList, contentType.toList),
      ("Content-Length".toList, (toString (encodeUtf8 t).length).toList)] := rfl
  have hnames : ∀ name ∈ ["Connection", "Content-Type", "Content-Length"],
      ':' ∉ name.toList ∧ '\r' ∉ name.toList := by decide
  have hread : readMessage r.serialize = some ⟨r.statusLine, r.headers, r.body⟩ := by
    refine readMessage_serialize (t := t) (decodeUtf8_encodeUtf8 t) ?_ ?_
    · show '\r' ∉ "OK".toList
      decide
    · rw [hheaders]
      intro field hfield
      rcases List.mem_cons.mp hfield with rfl | hfield
      · decide
      · rcases List.mem_cons.mp hfield with rfl | hfield
        · obtain ⟨hcolon, hname⟩ := hnames "Content-Type" (by decide)
          exact ⟨hcolon, hname, h⟩
        · obtain rfl := List.mem_singleton.mp hfield
          obtain ⟨hcolon, hname⟩ := hnames "Content-Length" (by decide)
          exact ⟨hcolon, hname, not_lineEnd_of_notMem (cr_notMem_decimal _)⟩
  refine ⟨_, hread, ⟨?_, Or.inl ⟨_, ?_, rfl⟩⟩, rfl⟩
  · rw [hheaders]
    exact List.mem_cons_self
  · rw [hheaders]
    exact List.mem_cons_of_mem _ (List.mem_cons_of_mem _ (List.mem_singleton_self _))

theorem respondNotFound_read_back :
    ∃ m, readMessage respondNotFound = some m ∧ m.Whole ∧ m.body = [] := by
  let r : Response :=
    (Response.new 404 "NOT FOUND".toList).header "Connection".toList "close".toList
  have hread : readMessage r.serialize = some ⟨r.statusLine, r.headers, r.body⟩ :=
    readMessage_serialize (t := []) decodeUtf8_nil (by decide) (by decide)
  exact ⟨_, hread, ⟨List.mem_singleton_self _, Or.inr ⟨by decide, rfl⟩⟩, rfl⟩

/-- **Every answer is read back.** -/
theorem Answered.read_back {htmlUi response : Str} {selection : Option BootSelection}
    (h : Answered htmlUi response selection) : ∃ m, readMessage response = some m ∧ m.Whole := by
  cases h with
  | page =>
      obtain ⟨m, hread, hwhole, _⟩ := respondOk_read_back (t := htmlUi) "text/html" (by decide)
      exact ⟨m, hread, hwhole⟩
  | accepted selection =>
      obtain ⟨m, hread, hwhole, _⟩ := respondOk_read_back (t := "OK".toList) "text/plain"
        (by decide)
      exact ⟨m, hread, hwhole⟩
  | notFound =>
      obtain ⟨m, hread, hwhole, _⟩ := respondNotFound_read_back
      exact ⟨m, hread, hwhole⟩

/-! ### The room for an answer -/

theorem length_encodeUtf8_append (t t' : Str) :
    (encodeUtf8 (t ++ t')).length = (encodeUtf8 t).length + (encodeUtf8 t').length := by
  rw [encodeUtf8, List.flatMap_append, List.length_append]
  rfl

theorem length_encodeUtf8_le (t : Str) : (encodeUtf8 t).length ≤ 4 * t.length := by
  induction t with
  | nil => exact Nat.le_refl 0
  | cons c t ih =>
      have hchar : (String.utf8EncodeChar c).length ≤ 4 := by
        rw [String.length_utf8EncodeChar]
        exact Char.utf8Size_le_four c
      have hcons : (encodeUtf8 (c :: t)).length
          = (String.utf8EncodeChar c).length + (encodeUtf8 t).length := List.length_append
      rw [hcons, List.length_cons]
      omega

/-- A length of four digits at most. -/
theorem length_encodeUtf8_decimal {n : ℕ} (h : n < 10 ^ 4) :
    (encodeUtf8 (toString n).toList).length ≤ 16 := by
  have hdigits : (toString n).toList = Nat.toDigits 10 n := Nat.toList_repr
  have hlength := Nat.toDigits_length 10 n 4 (by decide) h
  have hbytes := length_encodeUtf8_le (toString n).toList
  rw [hdigits] at hbytes ⊢
  omega

theorem length_frame (lines : List Str) (rest : Str) :
    (encodeUtf8 (frame '\r' '\n' lines rest)).length
      = (lines.map fun line => (encodeUtf8 line).length + 2).sum + 2
        + (encodeUtf8 rest).length := by
  have hend : (encodeUtf8 ['\r', '\n']).length = 2 := by decide
  induction lines with
  | nil =>
      show (encodeUtf8 (['\r', '\n'] ++ rest)).length = 0 + 2 + _
      rw [length_encodeUtf8_append, hend]
  | cons line lines ih =>
      have hcons : frame '\r' '\n' (line :: lines) rest
          = line ++ ['\r', '\n'] ++ frame '\r' '\n' lines rest := by
        simp [frame]
      rw [hcons, length_encodeUtf8_append, length_encodeUtf8_append, hend, ih, List.map_cons,
        List.sum_cons]
      omega

theorem length_statusLine {r : Response} (h : r.statusCode.toNat < 10 ^ 4) :
    (encodeUtf8 r.statusLine).length ≤ 26 + (encodeUtf8 r.statusText).length := by
  have hcode := length_encodeUtf8_decimal h
  have hversion : (encodeUtf8 "HTTP/1.1 ".toList).length = 9 := by decide
  have hspace : (encodeUtf8 [' ']).length = 1 := by decide
  unfold Response.statusLine
  rw [length_encodeUtf8_append, length_encodeUtf8_append, length_encodeUtf8_append]
  omega

theorem length_fieldLine (field : Str × Str) : (encodeUtf8 (fieldLine field)).length
    = (encodeUtf8 field.1).length + 2 + (encodeUtf8 field.2).length := by
  have hcolon : (encodeUtf8 ": ".toList).length = 2 := by decide
  rw [fieldLine, length_encodeUtf8_append, length_encodeUtf8_append, hcolon]

/-- **The room for an answer with a body.** -/
theorem length_respondOk {t : Str} (contentType : String) (h : (encodeUtf8 t).length < 10 ^ 4)
    (hcontent : (encodeUtf8 contentType.toList).length ≤ 10) :
    (encodeUtf8 (respondOk (encodeUtf8 t) contentType)).length ≤ 111 + (encodeUtf8 t).length := by
  let r : Response :=
    ((Response.new 200 "OK".toList).header "Connection".toList "close".toList).withBody
      (encodeUtf8 t) contentType.toList
  have hframe : respondOk (encodeUtf8 t) contentType
      = frame '\r' '\n' (r.statusLine :: [fieldLine ("Connection".toList, "close".toList),
          fieldLine ("Content-Type".toList, contentType.toList),
          fieldLine ("Content-Length".toList, (toString (encodeUtf8 t).length).toList)]) t := by
    have hserialize := serialize_eq_frame r
    rw [bodyText_of_decodeUtf8 (t := t) (decodeUtf8_encodeUtf8 t)] at hserialize
    exact hserialize
  have hstatus : (encodeUtf8 r.statusLine).length ≤ 26 + (encodeUtf8 "OK".toList).length :=
    length_statusLine (show (200 : UInt16).toNat < 10 ^ 4 by decide)
  have hnumber := length_encodeUtf8_decimal h
  have hok : (encodeUtf8 "OK".toList).length = 2 := by decide
  have hconnection : (encodeUtf8 "Connection".toList).length = 10 := by decide
  have hclose : (encodeUtf8 "close".toList).length = 5 := by decide
  have htype : (encodeUtf8 "Content-Type".toList).length = 12 := by decide
  have hlength : (encodeUtf8 "Content-Length".toList).length = 14 := by decide
  rw [hframe, length_frame]
  simp only [List.map_cons, List.map_nil, List.sum_cons, List.sum_nil, length_fieldLine]
  omega

theorem length_respondNotFound : (encodeUtf8 respondNotFound).length ≤ 111 := by
  let r : Response :=
    (Response.new 404 "NOT FOUND".toList).header "Connection".toList "close".toList
  have hframe : respondNotFound
      = frame '\r' '\n' (r.statusLine :: [fieldLine ("Connection".toList, "close".toList)]) [] :=
    serialize_eq_frame r
  have hstatus : (encodeUtf8 r.statusLine).length ≤ 26 + (encodeUtf8 "NOT FOUND".toList).length :=
    length_statusLine (show (404 : UInt16).toNat < 10 ^ 4 by decide)
  have htext : (encodeUtf8 "NOT FOUND".toList).length = 9 := by decide
  have hconnection : (encodeUtf8 "Connection".toList).length = 10 := by decide
  have hclose : (encodeUtf8 "close".toList).length = 5 := by decide
  have hnil : (encodeUtf8 []).length = 0 := rfl
  rw [hframe, length_frame]
  simp only [List.map_cons, List.map_nil, List.sum_cons, List.sum_nil, length_fieldLine]
  omega

/-- **Every answer fits**, if the page does. -/
theorem Answered.length_le {htmlUi response : Str} {selection : Option BootSelection} {room : ℕ}
    (h : Answered htmlUi response selection) (hroom : 111 + (encodeUtf8 htmlUi).length ≤ room)
    (hpage : (encodeUtf8 htmlUi).length < 10 ^ 4) (hok : 113 ≤ room) :
    (encodeUtf8 response).length ≤ room := by
  cases h with
  | page => exact (length_respondOk "text/html" hpage (by decide)).trans hroom
  | accepted selection =>
      have hlength : (encodeUtf8 "OK".toList).length = 2 := by decide
      have haccepted := length_respondOk (t := "OK".toList) "text/plain"
        (by rw [hlength]; decide) (by decide)
      omega
  | notFound =>
      have hnotFound := length_respondNotFound
      omega

end WebUiBoot.Web
