import WebUiBoot.Lib.Framing
import WebUiBoot.Web.Http

/-!
# Responses on the wire

What a reader makes of `Response::serialize` of `src/web.rs`: it splits the text at the first empty
line, and the head into lines and fields.

* `Message`, `readMessage` — a message as it is read;
* `serialize_eq_frame` — a response is a frame of its status line and its headers;
* `readMessage_eq_some` — the messages that are read, and the texts that they are read from;
* `serialize_read_back_iff` — when a response with a body is read back;
* `invalid_body_is_not_sent` — a body that is announced with its length and left out.
-/

namespace WebUiBoot.Web

open WebUiBoot.Text WebUiBoot.Boot WebUiBoot.Framing

/-! ### Reading -/

/-- A message: its status line, its header fields, and the bytes behind the empty line. -/
structure Message where
  statusLine : Str
  headers : List (Str × Str)
  body : Bytes

/-- A header field as a line. -/
def fieldLine (field : Str × Str) : Str := field.1 ++ ": ".toList ++ field.2

/-- A field is split at its first colon. -/
def splitField (line : Str) : Option (Str × Str) :=
  match line.dropWhile (· ≠ ':') with
  | ':' :: ' ' :: value => some (line.takeWhile (· ≠ ':'), value)
  | _ => none

def readMessage (t : Str) : Option Message :=
  match readHead '\r' '\n' [] t with
  | some (statusLine :: fields, rest) =>
      (fields.mapM splitField).map fun headers => ⟨statusLine, headers, encodeUtf8 rest⟩
  | _ => none

theorem splitField_eq_some {line : Str} {field : Str × Str} :
    splitField line = some field ↔ line = fieldLine field ∧ ':' ∉ field.1 := by
  constructor
  · intro h
    unfold splitField at h
    split at h
    · rename_i value hdrop
      cases h
      have hsplit := (List.takeWhile_append_dropWhile (p := (· ≠ ':')) (l := line)).symm
      rw [hdrop] at hsplit
      refine ⟨?_, fun hmem => ?_⟩
      · rw [fieldLine, List.append_assoc]
        exact hsplit
      · exact absurd (List.mem_takeWhile_imp hmem) (by simp)
    · cases h
  · intro ⟨hline, hcolon⟩
    have hname : ∀ c ∈ field.1, (decide (c ≠ ':')) = true := by
      intro c hc
      exact decide_eq_true fun heq => hcolon (heq ▸ hc)
    have hline : line = field.1 ++ ':' :: ' ' :: field.2 := by
      rw [hline, fieldLine, List.append_assoc]
      rfl
    have hdrop : line.dropWhile (· ≠ ':') = ':' :: ' ' :: field.2 := by
      rw [hline, List.dropWhile_append_of_pos hname]
      exact List.dropWhile_cons_of_neg (by simp)
    have htake : line.takeWhile (· ≠ ':') = field.1 := by
      rw [hline, List.takeWhile_append_of_pos hname, List.takeWhile_cons_of_neg (by simp),
        List.append_nil]
    unfold splitField
    rw [hdrop, htake]
    rfl

theorem mapM_splitField_eq_some {lines : List Str} {fields : List (Str × Str)} :
    lines.mapM splitField = some fields
      ↔ lines = fields.map fieldLine ∧ ∀ field ∈ fields, ':' ∉ field.1 := by
  induction lines generalizing fields with
  | nil =>
      rw [List.mapM_nil]
      cases fields with
      | nil => simp
      | cons field fields => simp
  | cons line lines ih =>
      simp only [List.mapM_cons, bind, Option.bind_eq_some_iff, pure, Option.some.injEq]
      constructor
      · intro ⟨field, hfield, fields', hfields, hcons⟩
        obtain ⟨hline, hcolon⟩ := splitField_eq_some.mp hfield
        obtain ⟨hlines, hcolons⟩ := ih.mp hfields
        rw [← hcons, hline, hlines]
        exact ⟨rfl, List.forall_mem_cons.mpr ⟨hcolon, hcolons⟩⟩
      · intro ⟨hlines, hcolons⟩
        cases fields with
        | nil => cases hlines
        | cons field fields =>
            obtain ⟨hline, hlines⟩ := List.cons.inj hlines
            obtain ⟨hcolon, hcolons⟩ := List.forall_mem_cons.mp hcolons
            exact ⟨field, splitField_eq_some.mpr ⟨hline, hcolon⟩, fields,
              ih.mpr ⟨hlines, hcolons⟩, rfl⟩

/-- **What is read.**  The parts of a frame whose first line is the status line, and whose other
lines are header fields. -/
theorem readMessage_eq_some {t : Str} {m : Message} :
    readMessage t = some m
      ↔ (∃ rest, t = frame '\r' '\n' (m.statusLine :: m.headers.map fieldLine) rest
          ∧ m.body = encodeUtf8 rest)
        ∧ (∀ field ∈ m.headers, ':' ∉ field.1)
        ∧ ∀ line ∈ m.statusLine :: m.headers.map fieldLine, IsHeadLine '\r' '\n' line := by
  have hne : '\r' ≠ '\n' := by decide
  constructor
  · intro h
    unfold readMessage at h
    split at h
    · rename_i statusLine fields rest hhead
      obtain ⟨headers, hheaders, rfl⟩ := Option.map_eq_some_iff.mp h
      obtain ⟨rfl, hcolons⟩ := mapM_splitField_eq_some.mp hheaders
      obtain ⟨ht, hlines⟩ := (readHead_eq_some hne).mp hhead
      exact ⟨⟨rest, ht, rfl⟩, hcolons, hlines⟩
    · cases h
  · intro ⟨⟨rest, ht, hbody⟩, hcolons, hlines⟩
    have hhead := (readHead_eq_some hne).mpr ⟨ht, hlines⟩
    have hheaders := mapM_splitField_eq_some.mpr ⟨rfl, hcolons⟩
    unfold readMessage
    rw [hhead]
    dsimp only
    rw [hheaders, Option.map_some, ← hbody]

/-! ### Writing -/

def Response.statusLine (r : Response) : Str :=
  "HTTP/1.1 ".toList ++ (toString r.statusCode.toNat).toList ++ [' '] ++ r.statusText

/-- What is written behind the empty line. -/
def Response.bodyText (r : Response) : Str :=
  if r.body = [] then [] else (decodeUtf8 r.body).getD []

/-- A response that is given its headers one after the other, and its body behind them. -/
def Response.ofParts (statusCode : UInt16) (statusText : Str) (headers : List (Str × Str))
    (body : Bytes) (contentType : Str) : Response :=
  (headers.foldl (fun r h => r.header h.1 h.2) (Response.new statusCode statusText)).withBody body
    contentType

theorem serialize_eq_frame (r : Response) :
    r.serialize = frame '\r' '\n' (r.statusLine :: r.headers.map fieldLine) r.bodyText := by
  unfold Response.serialize Response.statusLine Response.bodyText
  generalize (toString r.statusCode.toNat).toList = code
  have hcrlf : "\r\n".toList = ['\r', '\n'] := rfl
  rw [frame, List.flatMap_cons, List.flatMap_map, hcrlf]
  simp only [fieldLine, List.append_assoc]
  rfl

theorem bodyText_of_decodeUtf8 {r : Response} {t : Str} (h : decodeUtf8 r.body = some t) :
    r.bodyText = t := by
  unfold Response.bodyText
  by_cases hnil : r.body = []
  · rw [if_pos hnil]
    rw [hnil] at h
    exact Option.some.inj (decodeUtf8_nil.symm.trans h)
  · rw [if_neg hnil, h]
    rfl

theorem foldl_header (r : Response) (headers : List (Str × Str)) :
    headers.foldl (fun r h => r.header h.1 h.2) r = { r with headers := r.headers ++ headers } := by
  induction headers generalizing r with
  | nil => rw [List.append_nil]; rfl
  | cons h headers ih =>
      rw [List.foldl_cons, ih, Response.header, List.append_assoc]
      rfl

theorem ofParts_eq (statusCode : UInt16) (statusText : Str) (headers : List (Str × Str))
    (body : Bytes) (contentType : Str) :
    Response.ofParts statusCode statusText headers body contentType
      = ⟨statusCode, statusText, headers ++ [("Content-Type".toList, contentType),
          ("Content-Length".toList, (toString body.length).toList)], body⟩ := by
  rw [Response.ofParts, foldl_header]
  show Response.mk statusCode statusText (([] ++ headers) ++ [_] ++ [_]) body = _
  rw [List.nil_append, List.append_assoc]
  rfl

theorem cr_notMem_decimal (n : ℕ) : '\r' ∉ (toString n).toList := by
  intro hmem
  have hdigits : (toString n).toList = Nat.toDigits 10 n := Nat.toList_repr
  rw [hdigits] at hmem
  exact absurd (Nat.isDigit_of_mem_toDigits (by decide) (by decide) hmem) (by decide)

/-- A field is a line unless there is a line end in its name or in its value. -/
theorem isHeadLine_fieldLine (field : Str × Str) (hname : '\r' ∉ field.1) :
    IsHeadLine '\r' '\n' (fieldLine field) ↔ ¬ ['\r', '\n'] <:+: field.2 := by
  have hfront : '\r' ∉ field.1 ++ ": ".toList := by
    rw [List.mem_append, not_or]
    exact ⟨hname, by decide⟩
  constructor
  · intro h hwithin
    exact h.lineEnd (List.infix_append_of_infix_right hwithin)
  · intro h
    refine ⟨?_, fun hwithin => h (lineEnd_of_append hfront hwithin)⟩
    rw [fieldLine, List.append_assoc]
    exact List.append_ne_nil_of_right_ne_nil _ (List.cons_ne_nil _ _)

theorem isHeadLine_statusLine {r : Response} (h : '\r' ∉ r.statusText) :
    IsHeadLine '\r' '\n' r.statusLine := by
  have hversion : '\r' ∉ "HTTP/1.1 ".toList := by decide
  have hspace : '\r' ∉ [' '] := by decide
  have hcode := cr_notMem_decimal r.statusCode.toNat
  unfold Response.statusLine
  generalize (toString r.statusCode.toNat).toList = code at hcode
  refine ⟨List.cons_ne_nil _ _, not_lineEnd_of_notMem ?_⟩
  rw [List.mem_append, List.mem_append, List.mem_append, not_or, not_or, not_or]
  exact ⟨⟨⟨hversion, hcode⟩, hspace⟩, h⟩

/-- **Reading back.** -/
theorem readMessage_serialize {r : Response} {t : Str} (hbody : decodeUtf8 r.body = some t)
    (htext : '\r' ∉ r.statusText)
    (hheaders : ∀ h ∈ r.headers, ':' ∉ h.1 ∧ '\r' ∉ h.1 ∧ ¬ ['\r', '\n'] <:+: h.2) :
    readMessage r.serialize = some ⟨r.statusLine, r.headers, r.body⟩ := by
  refine readMessage_eq_some.mpr ⟨⟨t, ?_, ?_⟩, ?_, ?_⟩
  · rw [serialize_eq_frame, bodyText_of_decodeUtf8 hbody]
  · exact (encodeUtf8_of_decodeUtf8 hbody).symm
  · exact fun h hh => (hheaders h hh).1
  · refine List.forall_mem_cons.mpr ⟨isHeadLine_statusLine htext, List.forall_mem_map.mpr ?_⟩
    intro h hh
    obtain ⟨_, hname, hvalue⟩ := hheaders h hh
    exact (isHeadLine_fieldLine h hname).mpr hvalue

/-- What a reader expects of a response with these headers and this body. -/
def ReadBack (statusCode : UInt16) (statusText : Str) (headers : List (Str × Str)) (body : Bytes)
    (contentType : Str) : Prop :=
  ∃ m, readMessage (Response.ofParts statusCode statusText headers body contentType).serialize
        = some m
    ∧ m.statusLine
        = "HTTP/1.1 ".toList ++ (toString statusCode.toNat).toList ++ [' '] ++ statusText
    ∧ m.headers = headers ++ [("Content-Type".toList, contentType),
        ("Content-Length".toList, (toString m.body.length).toList)]
    ∧ m.body = body

/-- **When a response is read back.**  For every status and every list of headers without CR and
LF: the reader finds the status line, the headers, and behind the empty line the body, as many bytes
as `Content-Length` says, exactly when the body is UTF-8 and no line ends within the content
type. -/
theorem serialize_read_back_iff (statusCode : UInt16) (statusText : Str)
    (headers : List (Str × Str)) (body : Bytes) (contentType : Str)
    (htext : '\r' ∉ statusText ∧ '\n' ∉ statusText)
    (hheaders : ∀ h ∈ headers, h.1 ≠ [] ∧ ':' ∉ h.1 ∧ ('\r' ∉ h.1 ∧ '\n' ∉ h.1)
      ∧ ('\r' ∉ h.2 ∧ '\n' ∉ h.2)) :
    ReadBack statusCode statusText headers body contentType
      ↔ (decodeUtf8 body).isSome = true ∧ ¬ ['\r', '\n'] <:+: contentType := by
  have htype : '\r' ∉ "Content-Type".toList := by decide
  have hlength : '\r' ∉ "Content-Length".toList := by decide
  have hcolon : ':' ∉ "Content-Type".toList := by decide
  have hcolon' : ':' ∉ "Content-Length".toList := by decide
  unfold ReadBack
  rw [ofParts_eq]
  constructor
  · intro ⟨m, hread, _, hfields, hbody⟩
    obtain ⟨⟨rest, _, hrest⟩, _, hlines⟩ := readMessage_eq_some.mp hread
    constructor
    · rw [← hbody, hrest, decodeUtf8_encodeUtf8]
      rfl
    · refine (isHeadLine_fieldLine ("Content-Type".toList, contentType) htype).mp ?_
      refine hlines _ (List.mem_cons_of_mem _ (List.mem_map_of_mem ?_))
      rw [hfields]
      exact List.mem_append_right _ List.mem_cons_self
  · intro ⟨hvalid, hcontent⟩
    obtain ⟨t, ht⟩ := Option.isSome_iff_exists.mp hvalid
    refine ⟨_, readMessage_serialize ht htext.1 ?_, rfl, rfl, rfl⟩
    refine List.forall_mem_append.mpr ⟨fun h hh => ?_, List.forall_mem_cons.mpr
      ⟨⟨hcolon, htype, hcontent⟩, List.forall_mem_singleton.mpr
        ⟨hcolon', hlength, not_lineEnd_of_notMem (cr_notMem_decimal _)⟩⟩⟩
    obtain ⟨_, hcolon, hname, hvalue⟩ := hheaders h hh
    exact ⟨hcolon, hname.1, not_lineEnd_of_notMem hvalue.1⟩

/-- A response with a header and a body, read back. -/
theorem page_is_read_back :
    ReadBack 200 "OK".toList [("Connection".toList, "close".toList)] (encodeUtf8 "OK".toList)
      "text/plain".toList :=
  (serialize_read_back_iff 200 "OK".toList [("Connection".toList, "close".toList)]
    (encodeUtf8 "OK".toList) "text/plain".toList (by decide)
    (List.forall_mem_singleton.mpr (by decide))).mpr
    ⟨by rw [decodeUtf8_encodeUtf8]; rfl, by decide⟩

/-- **A body that is not UTF-8.**  It is announced with its length, one byte, and left out. -/
theorem invalid_body_is_not_sent :
    (Response.ofParts 200 "OK".toList [] [0xFF] "text/plain".toList).serialize
        = ("HTTP/1.1 200 OK\r\nContent-Type: text/plain\r\nContent-Length: 1\r\n\r\n").toList
      ∧ ¬ ReadBack 200 "OK".toList [] [0xFF] "text/plain".toList := by
  have hinvalid : decodeUtf8 [0xFF] = none := by decide
  refine ⟨by decide, ?_⟩
  intro ⟨m, hread, _, _, hbody⟩
  obtain ⟨⟨rest, _, hrest⟩, _, _⟩ := readMessage_eq_some.mp hread
  rw [hbody] at hrest
  rw [hrest, decodeUtf8_encodeUtf8] at hinvalid
  cases hinvalid

end WebUiBoot.Web
