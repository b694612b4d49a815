import WebUiBoot.Web.Http

/-!
# Requests

Complete HTTP/1.1 requests, and what `handle_http_request` of `src/web.rs` answers to them.

* `HttpRequest` — a request that keeps to the grammar, and its bytes;
* `HttparseLawful` — what is relied on in the parser;
* `lineHttparse`, `lineHttparse_lawful` — a parser that keeps to it;
* `handleHttpRequest_eq` — the answer is one to the request line, or there is none;
* `answers_agree_iff` — when two requests with the same request line are answered alike;
* `many_headers_are_not_answered` — a request with 17 headers.
-/

namespace WebUiBoot.Web

open WebUiBoot.Text WebUiBoot.Boot

/-! ### Syntax -/

/-- The characters of a method or of the name of a header, by their codes: `tchar`. -/
def isTokenCode (n : ℕ) : Bool :=
  (0x30 ≤ n ∧ n ≤ 0x39) ∨ (0x41 ≤ n ∧ n ≤ 0x5A) ∨ (0x61 ≤ n ∧ n ≤ 0x7A)
    ∨ n ∈ [0x21, 0x23, 0x24, 0x25, 0x26, 0x27, 0x2A, 0x2B, 0x2D, 0x2E, 0x5E, 0x5F, 0x60, 0x7C, 0x7E]

/-- Those of a request target: unreserved and reserved characters, and `%`. -/
def isTargetCode (n : ℕ) : Bool :=
  (0x30 ≤ n ∧ n ≤ 0x39) ∨ (0x41 ≤ n ∧ n ≤ 0x5A) ∨ (0x61 ≤ n ∧ n ≤ 0x7A)
    ∨ n ∈ [0x21, 0x24, 0x25, 0x26, 0x27, 0x28, 0x29, 0x2A, 0x2B, 0x2C, 0x2D, 0x2E, 0x2F, 0x3A, 0x3B,
      0x3D, 0x3F, 0x40, 0x5B, 0x5D, 0x5F, 0x7E]

/-- Those of the value of a header, with the white space around it. -/
def isFieldCode (n : ℕ) : Bool := n = 9 ∨ (0x20 ≤ n ∧ n ≠ 0x7F)

/-- A complete request that keeps to the grammar.  The headers are pairs of a name and a value. -/
structure HttpRequest where
  method : Str
  path : Str
  headers : List (Bytes × Bytes)
  body : Bytes
  method_ne_nil : method ≠ []
  method_token : ∀ c ∈ method, isTokenCode c.toNat = true
  path_ne_nil : path ≠ []
  path_target : ∀ c ∈ path, isTargetCode c.toNat = true
  headers_valid : ∀ h ∈ headers, h.1 ≠ [] ∧ (∀ b ∈ h.1, isTokenCode b.toNat = true)
    ∧ ∀ b ∈ h.2, isFieldCode b.toNat = true

/-- A line of the head, with its line end. -/
def headerLine (h : Bytes × Bytes) : Bytes := h.1 ++ 58 :: (h.2 ++ [13, 10])

def HttpRequest.bytes (r : HttpRequest) : Bytes :=
  encodeUtf8 r.method ++ 32 :: (encodeUtf8 r.path ++ 32 :: (encodeUtf8 "HTTP/1.1".toList ++ [13, 10]
    ++ r.headers.flatMap headerLine ++ [13, 10] ++ r.body))

/-- What is relied on in the parser: a complete request is parsed, unless it has more headers than
there is room for. -/
def HttparseLawful (httparse : Httparse) : Prop :=
  ∀ n (r : HttpRequest),
    (r.headers.length ≤ n → httparse n r.bytes = ⟨true, some r.method, some r.path⟩)
      ∧ (n < r.headers.length → (httparse n r.bytes).ok = false)

/-! ### Answers -/

/-- **The answer.**  It is the one to the request line alone, when there is room for the headers. -/
theorem handleHttpRequest_eq {httparse : Httparse} (h : HttparseLawful httparse) (htmlUi : Str)
    (r : HttpRequest) :
    handleHttpRequest httparse htmlUi r.bytes
      = if r.headers.length ≤ 16 then
          handleHttpRequest (fun _ _ => ⟨true, some r.method, some r.path⟩) htmlUi []
        else none := by
  by_cases hroom : r.headers.length ≤ 16
  · rw [if_pos hroom]
    unfold handleHttpRequest
    rw [(h 16 r).1 hroom]
  · have hfails := (h 16 r).2 (by omega)
    rw [if_neg hroom]
    show (if (!(httparse 16 r.bytes).ok) = true then none else _) = none
    rw [hfails]
    rfl

/-- Every request line is answered. -/
theorem requestLine_answered (htmlUi method path : Str) :
    handleHttpRequest (fun _ _ => ⟨true, some method, some path⟩) htmlUi [] ≠ none := by
  unfold handleHttpRequest
  dsimp only
  rw [if_neg (by decide)]
  split
  · exact Option.some_ne_none _
  · split
    · exact Option.some_ne_none _
    · split
      · exact Option.some_ne_none _
      · exact Option.some_ne_none _

/-- The path that selects a system. -/
def BootSelection.path : BootSelection → Str
  | .windows => "/boot/windows".toList
  | .linux => "/boot/linux".toList

theorem requestLine_boot (htmlUi : Str) (selection : BootSelection) :
    handleHttpRequest (fun _ _ => ⟨true, some "POST".toList, some selection.path⟩) htmlUi []
      = some (respondOk (encodeUtf8 "OK".toList) "text/plain", some selection) := by
  cases selection with
  | windows | linux => rfl

/-- **When two answers agree.**  For any two complete requests with the same method and path,
whatever their headers and bodies: they have the same response and the same selection exactly when
both have at most 16 headers or both have more; and a request to boot a system is accepted and
answered exactly when it has at most 16. -/
theorem answers_agree_iff {httparse : Httparse} (h : HttparseLawful httparse) (htmlUi : Str)
    (r r' : HttpRequest) (hmethod : r.method = r'.method) (hpath : r.path = r'.path) :
    (handleHttpRequest httparse htmlUi r.bytes = handleHttpRequest httparse htmlUi r'.bytes
        ↔ (r.headers.length ≤ 16 ↔ r'.headers.length ≤ 16))
      ∧ ∀ selection : BootSelection, r.method = "POST".toList → r.path = selection.path →
          (handleHttpRequest httparse htmlUi r.bytes
              = some (respondOk (encodeUtf8 "OK".toList) "text/plain", some selection)
            ↔ r.headers.length ≤ 16) := by
  have hanswered := requestLine_answered htmlUi r'.method r'.path
  constructor
  · rw [handleHttpRequest_eq h, handleHttpRequest_eq h, hmethod, hpath]
    by_cases hroom : r.headers.length ≤ 16
    · by_cases hroom' : r'.headers.length ≤ 16
      · rw [if_pos hroom, if_pos hroom']
        exact iff_of_true rfl (iff_of_true hroom hroom')
      · rw [if_pos hroom, if_neg hroom']
        exact iff_of_false hanswered fun hiff => hroom' (hiff.mp hroom)
    · by_cases hroom' : r'.headers.length ≤ 16
      · rw [if_neg hroom, if_pos hroom']
        exact iff_of_false (Ne.symm hanswered) fun hiff => hroom (hiff.mpr hroom')
      · rw [if_neg hroom, if_neg hroom']
        exact iff_of_true rfl (iff_of_false hroom hroom')
  · intro selection hpost hboot
    rw [handleHttpRequest_eq h, hpost, hboot, requestLine_boot]
    by_cases hroom : r.headers.length ≤ 16
    · rw [if_pos hroom]
      exact iff_of_true rfl hroom
    · rw [if_neg hroom]
      exact iff_of_false (fun hnone => by cases hnone) hroom

/-! ### A parser -/

/-- A parser that takes a head apart into lines, and the first line into words. -/
def lineHttparse : Httparse := fun n request =>
  let ls := request.splitOn 10
  let count := ((ls.drop 1).takeWhile (· ≠ [13])).length
  match (ls.headD []).splitOn 32 with
  | [method, path, _] =>
      if count ≤ n then ⟨true, decodeUtf8 method, decodeUtf8 path⟩ else ⟨false, none, none⟩
  | _ => ⟨false, none, none⟩

theorem graphic_of_isTokenCode {n : ℕ} (h : isTokenCode n = true) : 0x20 < n ∧ n < 0x7F := by
  simp only [isTokenCode, List.mem_cons, List.not_mem_nil, or_false, decide_eq_true_eq] at h
  omega

theorem graphic_of_isTargetCode {n : ℕ} (h : isTargetCode n = true) : 0x20 < n ∧ n < 0x7F := by
  simp only [isTargetCode, List.mem_cons, List.not_mem_nil, or_false, decide_eq_true_eq] at h
  omega

theorem encodeUtf8_graphic {t : Str} (h : ∀ c ∈ t, 0x20 < c.toNat ∧ c.toNat < 0x7F) :
    ∀ b ∈ encodeUtf8 t, 0x20 < b.toNat := by
  intro b hb
  obtain ⟨c, hc, hb⟩ := List.mem_flatMap.mp hb
  obtain ⟨hlow, hhigh⟩ := h c hc
  have hsingle : String.utf8EncodeChar c = [UInt8.ofNat c.toNat] := by
    have hval : c.val.toNat ≤ 0x7F := by
      show c.toNat ≤ 0x7F
      omega
    simp only [String.utf8EncodeChar]
    rw [if_pos hval]
    rfl
  rw [hsingle, List.mem_singleton] at hb
  rw [hb, UInt8.toNat_ofNat']
  omega

theorem notMem_of_graphic {bytes : Bytes} (h : ∀ b ∈ bytes, 0x20 < b.toNat) {b : UInt8}
    (hb : b.toNat ≤ 0x20) : b ∉ bytes := by
  intro hmem
  have := h b hmem
  omega

theorem HttpRequest.method_graphic (r : HttpRequest) :
    ∀ b ∈ encodeUtf8 r.method, 0x20 < b.toNat :=
  encodeUtf8_graphic fun c hc => graphic_of_isTokenCode (r.method_token c hc)

theorem HttpRequest.path_graphic (r : HttpRequest) : ∀ b ∈ encodeUtf8 r.path, 0x20 < b.toNat :=
  encodeUtf8_graphic fun c hc => graphic_of_isTargetCode (r.path_target c hc)

/-- The lines of the headers, and the empty line behind them. -/
theorem splitOn_headers {headers : List (Bytes × Bytes)} (body : Bytes)
    (h : ∀ header ∈ headers, header.1 ≠ [] ∧ (∀ b ∈ header.1, isTokenCode b.toNat = true)
      ∧ ∀ b ∈ header.2, isFieldCode b.toNat = true) :
    (headers.flatMap headerLine ++ [13, 10] ++ body).splitOn 10
      = headers.map (fun header => header.1 ++ 58 :: (header.2 ++ [13]))
        ++ [13] :: body.splitOn 10 := by
  induction headers with
  | nil =>
      have hnotMem : (10 : UInt8) ∉ [(13 : UInt8)] := by decide
      exact List.splitOn_append_cons_self_of_not_mem hnotMem body
  | cons header headers ih =>
      obtain ⟨_, hname, hvalue⟩ := h header List.mem_cons_self
      have ih := ih fun header' hheader' => h header' (List.mem_cons_of_mem _ hheader')
      have hline : (10 : UInt8) ∉ header.1 ++ 58 :: (header.2 ++ [13]) := by
        have hname' : (10 : UInt8) ∉ header.1 := fun hmem => absurd (hname 10 hmem) (by decide)
        have hvalue' : (10 : UInt8) ∉ header.2 := fun hmem => absurd (hvalue 10 hmem) (by decide)
        simp [hname', hvalue']
      have hsplit : (header :: headers).flatMap headerLine ++ [13, 10] ++ body
          = (header.1 ++ 58 :: (header.2 ++ [13]))
            ++ 10 :: (headers.flatMap headerLine ++ [13, 10] ++ body) := by
        simp [headerLine]
      rw [hsplit, List.splitOn_append_cons_self_of_not_mem hline, ih]
      rfl

/-- The number of lines in front of the empty one. -/
theorem length_takeWhile_headers {headers : List (Bytes × Bytes)} (rest : List Bytes)
    (h : ∀ header ∈ headers, header.1 ≠ []) :
    ((headers.map (fun header => header.1 ++ 58 :: (header.2 ++ [13])) ++ [13] :: rest).takeWhile
      (· ≠ [13])).length = headers.length := by
  induction headers with
  | nil => rfl
  | cons header headers ih =>
      have ih := ih fun header' hheader' => h header' (List.mem_cons_of_mem _ hheader')
      have hline : header.1 ++ 58 :: (header.2 ++ [13]) ≠ [13] := by
        cases hname : header.1 with
        | nil => exact absurd hname (h header List.mem_cons_self)
        | cons b name => simp
      rw [List.map_cons, List.cons_append, List.takeWhile_cons_of_pos (by simpa using hline),
        List.length_cons, ih, List.length_cons]

theorem lineHttparse_lawful : HttparseLawful lineHttparse := by
  intro n r
  have hline : (10 : UInt8) ∉ encodeUtf8 r.method ++ 32 :: (encodeUtf8 r.path
      ++ 32 :: (encodeUtf8 "HTTP/1.1".toList ++ [13])) := by
    have hmethod := notMem_of_graphic r.method_graphic (show (10 : UInt8).toNat ≤ 0x20 by decide)
    have hpath := notMem_of_graphic r.path_graphic (show (10 : UInt8).toNat ≤ 0x20 by decide)
    have hversion : (10 : UInt8) ∉ encodeUtf8 "HTTP/1.1".toList ++ [13] := by decide
    simp only [List.mem_append, List.mem_cons, not_or]
    exact ⟨hmethod, by decide, hpath, by decide, by simpa using hversion⟩
  have hsplit : r.bytes = (encodeUtf8 r.method ++ 32 :: (encodeUtf8 r.path
      ++ 32 :: (encodeUtf8 "HTTP/1.1".toList ++ [13])))
      ++ 10 :: (r.headers.flatMap headerLine ++ [13, 10] ++ r.body) := by
    simp [HttpRequest.bytes]
  have hwords : (encodeUtf8 r.method ++ 32 :: (encodeUtf8 r.path
      ++ 32 :: (encodeUtf8 "HTTP/1.1".toList ++ [13]))).splitOn 32
      = [encodeUtf8 r.method, encodeUtf8 r.path, encodeUtf8 "HTTP/1.1".toList ++ [13]] := by
    have hmethod := notMem_of_graphic r.method_graphic (show (32 : UInt8).toNat ≤ 0x20 by decide)
    have hpath := notMem_of_graphic r.path_graphic (show (32 : UInt8).toNat ≤ 0x20 by decide)
    rw [List.splitOn_append_cons_self_of_not_mem hmethod,
      List.splitOn_append_cons_self_of_not_mem hpath]
    rfl
  have hparse : lineHttparse n r.bytes = if r.headers.length ≤ n then
      ⟨true, some r.method, some r.path⟩ else ⟨false, none, none⟩ := by
    unfold lineHttparse
    rw [hsplit, List.splitOn_append_cons_self_of_not_mem hline, splitOn_headers _ r.headers_valid]
    dsimp only [List.headD_cons]
    rw [List.drop_one, List.tail_cons, hwords,
      length_takeWhile_headers _ fun h hh => (r.headers_valid h hh).1]
    dsimp only
    rw [decodeUtf8_encodeUtf8, decodeUtf8_encodeUtf8]
  rw [hparse]
  constructor
  · exact fun hroom => if_pos hroom
  · intro hmany
    rw [if_neg (by omega)]

/-! ### Seventeen headers -/

theorem post_token : ∀ c ∈ "POST".toList, isTokenCode c.toNat = true :=
  List.all_eq_true.mp (by decide)

theorem windows_target : ∀ c ∈ "/boot/windows".toList, isTargetCode c.toNat = true :=
  List.all_eq_true.mp (by decide)

theorem replicate_valid (k : ℕ) : ∀ h ∈ List.replicate k (([88], [49]) : Bytes × Bytes),
    h.1 ≠ [] ∧ (∀ b ∈ h.1, isTokenCode b.toNat = true)
      ∧ ∀ b ∈ h.2, isFieldCode b.toNat = true := by
  intro h hmem
  rw [List.eq_of_mem_replicate hmem]
  exact ⟨List.cons_ne_nil _ _, List.forall_mem_singleton.mpr (by decide),
    List.forall_mem_singleton.mpr (by decide)⟩

/-- `POST /boot/windows`, with `k` headers `X:1`. -/
def postWindows (k : ℕ) : HttpRequest where
  method := "POST".toList
  path := "/boot/windows".toList
  headers := List.replicate k ([88], [49])
  body := []
  method_ne_nil := List.cons_ne_nil _ _
  method_token := post_token
  path_ne_nil := List.cons_ne_nil _ _
  path_target := windows_target
  headers_valid := replicate_valid k

theorem length_postWindows (k : ℕ) : (postWindows k).headers.length = k := List.length_replicate

theorem answers_agree_16 :
    (handleHttpRequest lineHttparse [] (postWindows 0).bytes
        = handleHttpRequest lineHttparse [] (postWindows 16).bytes
      ↔ ((postWindows 0).headers.length ≤ 16 ↔ (postWindows 16).headers.length ≤ 16)) :=
  (answers_agree_iff lineHttparse_lawful [] (postWindows 0) (postWindows 16) rfl rfl).1

/-- **Seventeen headers.**  The same request is accepted without headers, and with 17 there is no
answer and nothing is booted. -/
theorem many_headers_are_not_answered :
    handleHttpRequest lineHttparse [] (postWindows 0).bytes
        = some (respondOk (encodeUtf8 "OK".toList) "text/plain", some .windows)
      ∧ handleHttpRequest lineHttparse [] (postWindows 17).bytes = none
      ∧ handleHttpRequest lineHttparse [] (postWindows 0).bytes
          ≠ handleHttpRequest lineHttparse [] (postWindows 17).bytes := by
  have hnone : handleHttpRequest lineHttparse [] (postWindows 17).bytes = none := by
    rw [handleHttpRequest_eq lineHttparse_lawful, length_postWindows]
    exact if_neg (by decide)
  have hsome : handleHttpRequest lineHttparse [] (postWindows 0).bytes
      = some (respondOk (encodeUtf8 "OK".toList) "text/plain", some .windows) := by
    rw [handleHttpRequest_eq lineHttparse_lawful, length_postWindows, if_pos (Nat.zero_le 16)]
    exact requestLine_boot [] .windows
  refine ⟨hsome, hnone, ?_⟩
  rw [hsome, hnone]
  exact Option.some_ne_none _

end WebUiBoot.Web
