import Aifluxon.Auth.StoredLogins
import Aifluxon.Providers.Utf8

/-!
# The callback of a login

`callback.rs`: the request with which the browser returns from the authorization server.

* `CallbackUrl` : what `Url::parse` gives; `callbackCodeFromTarget` : the code in the target of a request;
* `CallbackRead`, `readRequest` : the loop that reads the request; `requestTarget` : the target in it;
* `waitForCallback` : one connection, up to the page that is written to it;
* `fromUtf8Lossy_newline`, `requestTarget_congr` : the target depends on the first line alone;
* `Delivers`, `readRequest_delivers` : the pieces in which a request arrives do not matter;
* `login_callback` : which requests a login takes a code of, and that it stores nothing without one.
-/

namespace Aifluxon

open AuthM AuthLibrary

/-! ## The code of a target -/

def callbackPath : String := "/auth/callback"

/-- The path of an address and the pairs of its query, decoded. -/
structure CallbackUrl where
  path : String
  queryPairs : List (String × String)
  deriving DecidableEq

/-- `params.get(key)` of the pairs as a map, in which the last pair of a key stands. -/
def CallbackUrl.param (url : CallbackUrl) (key : String) : Option String := url.queryPairs.reverse.lookup key

section Target
variable (parseUrl : String → Option CallbackUrl)

def callbackCodeFromTarget (target expectedState : String) : Except AuthError String :=
  match parseUrl ("http://localhost" ++ target) with
  | none => .error (.new .callbackProtocol "Codex login callback address is invalid.")
  | some url =>
    if url.path ≠ callbackPath then .error (.new .callbackProtocol "Codex login callback path is invalid.")
    else if url.param "state" ≠ some expectedState then
      .error (.new .stateMismatch "Codex login callback state did not match.")
    else match url.param "error" with
      | some error => .error (.new .callbackProtocol
          ("Codex authorization failed: " ++ (url.param "error_description").getD error))
      | none => match notBlank (url.param "code") with
        | some code => .ok code
        | none => .error (.new .callbackProtocol "Codex login callback is missing the authorization code.")

/-- The address is the callback of the login with the state: no error, and a code that is not blank. -/
structure Grants (expectedState code : String) (url : CallbackUrl) : Prop where
  path : url.path = callbackPath
  state : url.param "state" = some expectedState
  error : url.param "error" = none
  given : url.param "code" = some code
  notBlank : trim code ≠ ""

theorem notBlank_eq_some {text : Option String} {s : String} :
    notBlank text = some s ↔ text = some s ∧ trim s ≠ "" := by
  rw [notBlank, Option.filter_eq_some_iff]
  simp

theorem callbackCodeFromTarget_ok (target expectedState code : String) :
    callbackCodeFromTarget parseUrl target expectedState = .ok code ↔
      ∃ url, parseUrl ("http://localhost" ++ target) = some url ∧ Grants expectedState code url := by
  unfold callbackCodeFromTarget
  cases parseUrl ("http://localhost" ++ target) with
  | none => simp
  | some url =>
    simp only [Option.some.injEq, exists_eq_left']
    constructor
    · intro h
      split at h
      · cases h
      rename_i hpath
      split at h
      · cases h
      rename_i hstate
      split at h
      · cases h
      rename_i herror
      split at h
      · rename_i code' hcode
        cases h
        obtain ⟨hcode, hblank⟩ := notBlank_eq_some.1 hcode
        exact ⟨not_not.1 hpath, not_not.1 hstate, herror, hcode, hblank⟩
      · cases h
    · rintro ⟨hpath, hstate, herror, hcode, hblank⟩
      rw [if_neg (not_not.2 hpath), if_neg (not_not.2 hstate), herror, notBlank_eq_some.2 ⟨hcode, hblank⟩]

end Target

/-! ## Reading the request -/

/-- A read of the connection; a read of no bytes is its end. -/
inductive CallbackRead where
  | timedOut
  | failed (error : String)
  | bytes (chunk : List UInt8)

/-- `\r\n\r\n`. -/
def headerEnd : List UInt8 := [13, 10, 13, 10]

def requestLimit : Nat := 16 * 1024

/-- The loop stops before its next read. -/
def requestRead (request : List UInt8) : Bool := requestLimit ≤ request.length || decide (headerEnd <:+: request)

/-- The loop that reads the request; a connection that sends nothing more times out. -/
def readRequest (request : List UInt8) : List CallbackRead → Except AuthError (List UInt8)
  | [] =>
    if requestRead request then .ok request
    else .error (.new .callbackTimeout "Codex login callback read timed out.")
  | read :: reads =>
    if requestRead request then .ok request
    else match read with
      | .timedOut => .error (.new .callbackTimeout "Codex login callback read timed out.")
      | .failed error => .error (.new .callbackProtocol ("Codex login callback read failed: " ++ error))
      | .bytes [] => .ok request
      | .bytes (byte :: bytes) => readRequest (request ++ byte :: bytes) reads

/-- The first of the `lines` of a text; it is empty when there is none. -/
def firstLine (text : List Char) : List Char :=
  let line := text.takeWhile fun c => c ≠ '\n'
  if line.length < text.length ∧ ['\r'] <:+ line then line.dropLast else line

/-- The second of the `split_whitespace` of the first line. -/
def requestTarget (request : List UInt8) : String :=
  let words := ((firstLine (fromUtf8Lossy request)).splitOnP isWhitespace).filter fun word => word ≠ []
  String.ofList (words.getD 1 [])

/-- What becomes of the wait for a connection. -/
inductive CallbackAccept where
  | timedOut
  | failed (error : String)
  | connected (reads : List CallbackRead)

/-- `wait_for_callback`, and whether it writes the page of a failure to the connection. -/
def waitForCallback (parseUrl : String → Option CallbackUrl) (expectedState : String) (timeout : Duration)
    (accept : CallbackAccept) : Except AuthError String × Bool :=
  if timeout = 0 then (.error (.new .callbackTimeout "Codex authorization timed out."), false)
  else match accept with
    | .timedOut => (.error (.new .callbackTimeout "Codex authorization timed out."), false)
    | .failed error => (.error (.new .callbackProtocol ("Codex login callback accept failed: " ++ error)), false)
    | .connected reads => match readRequest [] reads with
      | .error error => (.error error, false)
      | .ok request => match callbackCodeFromTarget parseUrl (requestTarget request) expectedState with
        | .ok code => (.ok code, false)
        | .error error => (.error error, true)

/-! ## The first line of bytes -/

section Newline

theorem utf8Tail_newline (more : List UInt8) : ∀ (n code : Nat) (bytes : List UInt8),
    utf8Tail n code bytes = .incomplete → utf8Tail n code (bytes ++ 10 :: more) = .invalid (10 :: more) := by
  intro n
  induction n with
  | zero => exact fun _ _ h => by cases h
  | succ n ih =>
    intro code bytes h
    cases bytes with
    | nil => rfl
    | cons b bytes =>
      rw [List.cons_append, utf8Tail]
      rw [utf8Tail] at h
      split at h
      · rename_i hb
        rw [if_pos hb]
        exact ih _ bytes h
      · cases h

theorem utf8Second_newline (more : List UInt8) {low high : UInt8} {n code : Nat} (h : ¬ low ≤ 10) :
    utf8Second low high n code (10 :: more) = .invalid (10 :: more) := by
  rw [utf8Second, if_neg fun hb => h hb.1]

theorem utf8Next_only_newline (more : List UInt8) {lead : UInt8} (h : utf8Next lead [] = .incomplete) :
    utf8Next lead (10 :: more) = .invalid (10 :: more) := by
  unfold utf8Next at h ⊢
  split_ifs at h ⊢
  all_goals exact utf8Second_newline more (by decide)

/-- A character that has not ended does not end with a line. -/
theorem utf8Next_newline (more : List UInt8) {lead : UInt8} {bytes : List UInt8}
    (h : utf8Next lead bytes = .incomplete) : utf8Next lead (bytes ++ 10 :: more) = .invalid (10 :: more) := by
  rcases utf8Next_cases lead with hlead | hlead | ⟨low, high, n, code, hlead⟩
  · rw [hlead] at h
    cases h
  · rw [hlead] at h
    cases h
  · rw [hlead] at h ⊢
    cases bytes with
    | nil =>
      rw [List.nil_append, ← hlead]
      exact utf8Next_only_newline more (by rw [hlead]; rfl)
    | cons b bytes =>
      rw [List.cons_append, utf8Second]
      rw [utf8Second] at h
      split at h
      · rename_i hb
        rw [if_pos hb]
        exact utf8Tail_newline more _ _ bytes h
      · cases h

/-- What is left of bytes begins a character that has not ended. -/
theorem decodeUtf8_pending (bytes : List UInt8) : (decodeUtf8 bytes).1 = [] ∨
    ∃ lead rest, (decodeUtf8 bytes).1 = lead :: rest ∧ utf8Next lead rest = .incomplete := by
  induction hn : bytes.length using Nat.strongRecOn generalizing bytes with
  | _ n ih =>
    cases bytes with
    | nil => exact .inl rfl
    | cons lead bytes =>
      have hrest := utf8Next_rest lead bytes
      rw [decodeUtf8_cons]
      rw [List.length_cons] at hn
      cases hnext : utf8Next lead bytes with
      | char c rest =>
        rw [hnext] at hrest
        exact ih rest.length (by rw [← hn]; exact Nat.lt_succ_of_le hrest) rest rfl
      | invalid rest =>
        rw [hnext] at hrest
        exact ih rest.length (by rw [← hn]; exact Nat.lt_succ_of_le hrest) rest rfl
      | incomplete => exact .inr ⟨lead, bytes, rfl, hnext⟩

/-- A line ends where its byte stands. -/
theorem fromUtf8Lossy_newline (xs ys : List UInt8) :
    fromUtf8Lossy (xs ++ 10 :: ys) = fromUtf8Lossy xs ++ '\n' :: fromUtf8Lossy ys := by
  have hline : fromUtf8Lossy (10 :: ys) = '\n' :: fromUtf8Lossy ys := fromUtf8Lossy_ascii (by decide) ys
  rcases decodeUtf8_pending xs with hpending | ⟨lead, rest, hpending, hnext⟩
  · have hxs : fromUtf8Lossy xs = (decodeUtf8 xs).2 := by
      rw [fromUtf8Lossy, hpending, if_pos rfl, List.append_nil]
    rw [hxs, ← hline, fromUtf8Lossy, fromUtf8Lossy, decodeUtf8_append, hpending, List.nil_append, List.append_assoc]
  · have hxs : fromUtf8Lossy xs = (decodeUtf8 xs).2 ++ [replacement] := by
      rw [fromUtf8Lossy, hpending, if_neg (by simp)]
    rw [hxs, ← hline, fromUtf8Lossy, fromUtf8Lossy, decodeUtf8_append, hpending, List.cons_append, decodeUtf8_cons,
      utf8Next_newline ys hnext]
    simp only [List.append_assoc, List.cons_append, List.nil_append]

theorem firstLine_append (line rest : List Char) : firstLine (line ++ '\n' :: rest) = firstLine (line ++ ['\n']) := by
  have htake (rest : List Char) : (line ++ '\n' :: rest).takeWhile (fun c => c ≠ '\n') =
      line.takeWhile fun c => c ≠ '\n' := by
    induction line with
    | nil => rfl
    | cons c line ih => rw [List.cons_append, List.takeWhile_cons, List.takeWhile_cons, ih]
  have hshort (rest : List Char) : (line.takeWhile fun c => c ≠ '\n').length < (line ++ '\n' :: rest).length := by
    have := (List.takeWhile_prefix (fun c : Char => decide (c ≠ '\n')) (l := line)).length_le
    rw [List.length_append, List.length_cons]
    omega
  unfold firstLine
  simp only [htake, hshort]

/-- **The target** of a request depends on its first line alone. -/
theorem requestTarget_congr {request request' line rest rest' : List UInt8} (h : request = line ++ 10 :: rest)
    (h' : request' = line ++ 10 :: rest') : requestTarget request = requestTarget request' := by
  unfold requestTarget
  rw [h, h', fromUtf8Lossy_newline, fromUtf8Lossy_newline, firstLine_append, firstLine_append _ (fromUtf8Lossy rest')]

end Newline

/-! ## The pieces of a request -/

/-- The reads bring what is sent in pieces; the connection is closed then, or the head of the request has
ended. -/
structure Delivers (sent : List UInt8) (reads : List CallbackRead) : Prop where
  pieces : ∃ (chunks : List (List UInt8)) (rest : List CallbackRead), (∀ chunk ∈ chunks, chunk ≠ []) ∧ chunks.flatten = sent ∧
    reads = chunks.map CallbackRead.bytes ++ rest ∧ (headerEnd <:+: sent ∨ ∃ more, rest = .bytes [] :: more)

/-- The first line ends within what the loop reads at least. -/
def ShortLine (sent : List UInt8) : Prop := (sent.takeWhile fun byte => byte ≠ 10).length < requestLimit

instance (sent : List UInt8) : Decidable (ShortLine sent) := inferInstanceAs (Decidable (_ < _))

section Reads
variable {sent request : List UInt8} {reads : List CallbackRead}

theorem readRequest_read (h : requestRead request = true) (reads : List CallbackRead) :
    readRequest request reads = .ok request := by
  cases reads <;> exact if_pos h

/-- **The loop** ends with the whole request, or with enough of it. -/
theorem readRequest_pieces {rest : List CallbackRead}
    (hrest : headerEnd <:+: sent ∨ ∃ more, rest = .bytes [] :: more) :
    ∀ (chunks : List (List UInt8)) (request : List UInt8), (∀ chunk ∈ chunks, chunk ≠ []) →
      request ++ chunks.flatten = sent →
      ∃ final, readRequest request (chunks.map CallbackRead.bytes ++ rest) = .ok final ∧ final <+: sent ∧
        (requestRead final = true ∨ final = sent) := by
  intro chunks
  induction chunks with
  | nil =>
    intro request _ hsent
    rw [List.flatten_nil, List.append_nil] at hsent
    subst hsent
    rw [List.map_nil, List.nil_append]
    refine ⟨request, ?_, List.prefix_rfl, .inr rfl⟩
    by_cases hread : requestRead request = true
    · exact readRequest_read hread rest
    · rcases hrest with hend | ⟨more, rfl⟩
      · exact absurd (by rw [requestRead, decide_eq_true hend, Bool.or_true]) hread
      · rw [readRequest, if_neg hread]
  | cons chunk chunks ih =>
    intro request hne hsent
    by_cases hread : requestRead request = true
    · exact ⟨request, readRequest_read hread _, ⟨_, hsent⟩, .inl hread⟩
    · obtain ⟨byte, bytes, rfl⟩ := List.exists_cons_of_ne_nil (hne chunk (List.mem_cons_self ..))
      rw [List.map_cons, List.cons_append, readRequest, if_neg hread]
      refine ih (request ++ byte :: bytes) (fun c hc => hne c (List.mem_cons_of_mem _ hc)) ?_
      rw [List.append_assoc]
      exact hsent

/-- A request that the loop has read has the first line. -/
theorem newline_mem (hshort : ShortLine sent) (hpart : request <+: sent) (hread : requestRead request = true) :
    10 ∈ request := by
  rw [requestRead, Bool.or_eq_true, decide_eq_true_eq, decide_eq_true_eq] at hread
  rcases hread with hlong | hend
  · by_contra hno
    obtain ⟨more, rfl⟩ := hpart
    have hall : ∀ byte ∈ request, decide (byte ≠ 10) = true := by
      intro byte hbyte
      exact decide_eq_true (ne_of_mem_of_not_mem hbyte hno)
    rw [ShortLine, List.takeWhile_append_of_pos hall, List.length_append] at hshort
    omega
  · exact hend.subset (by decide)

/-- **The pieces of a request do not matter** for its target. -/
theorem readRequest_delivers (h : Delivers sent reads) (hshort : ShortLine sent) :
    ∃ request, readRequest [] reads = .ok request ∧ requestTarget request = requestTarget sent := by
  obtain ⟨chunks, rest, hne, hflatten, rfl, hrest⟩ := h.pieces
  obtain ⟨request, hread, hpart, hfinal⟩ := readRequest_pieces hrest chunks [] hne hflatten
  refine ⟨request, hread, ?_⟩
  rcases hfinal with hfinal | rfl
  · obtain ⟨line, more, hline⟩ := List.append_of_mem (newline_mem hshort hpart hfinal)
    obtain ⟨rest', rfl⟩ := hpart
    have hsent : request ++ rest' = line ++ 10 :: (more ++ rest') := by
      rw [hline, List.append_assoc, List.cons_append]
    exact requestTarget_congr hline hsent
  · rfl

end Reads

/-! ## A login -/

section Login
variable {lib : AuthLibrary} {m : Nat} {w : AuthWorld} {redirectUri verifier expectedState : String}
  {parseUrl : String → Option CallbackUrl} {timeout : Duration} {sent : List UInt8} {reads : List CallbackRead}

/-- The outcome of a connection is that of the target of what is sent. -/
theorem waitForCallback_delivers (htimeout : timeout ≠ 0) (hdelivers : Delivers sent reads) (hshort : ShortLine sent) :
    (waitForCallback parseUrl expectedState timeout (.connected reads)).1 =
        callbackCodeFromTarget parseUrl (requestTarget sent) expectedState ∧
      ((waitForCallback parseUrl expectedState timeout (.connected reads)).2 = true ↔
        ∀ code, callbackCodeFromTarget parseUrl (requestTarget sent) expectedState ≠ .ok code) := by
  obtain ⟨request, hread, htarget⟩ := readRequest_delivers hdelivers hshort
  rw [waitForCallback, if_neg htimeout]
  simp only [hread, htarget]
  cases callbackCodeFromTarget parseUrl (requestTarget sent) expectedState <;> simp

/-- **A login and its callback:** however the request is cut into pieces, its code is taken if and only if
its target is the callback with the state of this login, without an error; otherwise the browser is told
so. Without such a request a login changes no secret. -/
theorem login_callback (htimeout : timeout ≠ 0) (hdelivers : Delivers sent reads) (hshort : ShortLine sent)
    (hcallback : (w.inputs w.clock).callback =
      (waitForCallback parseUrl expectedState timeout (.connected reads)).1) :
    (∀ code, (w.inputs w.clock).callback = .ok code ↔
      ∃ url, parseUrl ("http://localhost" ++ requestTarget sent) = some url ∧ Grants expectedState code url) ∧
    ((waitForCallback parseUrl expectedState timeout (.connected reads)).2 = true ↔
      ∀ code, (w.inputs w.clock).callback ≠ .ok code) ∧
    ((exec m (lib.completeLogin redirectUri verifier) w).2.core ≠ w.core →
      ∃ url code, parseUrl ("http://localhost" ++ requestTarget sent) = some url ∧ Grants expectedState code url) := by
  obtain ⟨hresult, hpage⟩ := @waitForCallback_delivers expectedState parseUrl timeout sent reads htimeout hdelivers
    hshort
  have hcode (code : String) : (w.inputs w.clock).callback = .ok code ↔
      ∃ url, parseUrl ("http://localhost" ++ requestTarget sent) = some url ∧ Grants expectedState code url := by
    rw [hcallback, hresult]
    exact callbackCodeFromTarget_ok parseUrl _ expectedState code
  refine ⟨hcode, ?_, fun hchanged => ?_⟩
  · rw [hcallback, hresult]
    exact hpage
  · have hexec := @completeLogin_exec lib m redirectUri verifier w
    cases hw : (w.inputs w.clock).callback with
    | ok code =>
      obtain ⟨url, hurl, hgrants⟩ := (hcode code).1 hw
      exact ⟨url, code, hurl, hgrants⟩
    | error error =>
      have hnone : lib.exchanged verifier w = none := by
        rw [AuthLibrary.exchanged, hw]
        rfl
      rw [hnone] at hexec
      exact absurd hexec hchanged

/-- A request that arrives in two pieces. -/
def grantedPieces : List (List UInt8) :=
  ["GET /auth/callback?co", "de=C&state=S HTTP/1.1\r\n\r\n"].map fun text =>
    text.toList.map fun c => UInt8.ofNat c.toNat

def parseGranted (address : String) : Option CallbackUrl :=
  if address = "http://localhost/auth/callback?code=C&state=S" then
    some ⟨callbackPath, [("code", "C"), ("state", "S")]⟩
  else none

theorem login_callback_code : ∃ url,
    parseGranted ("http://localhost" ++ requestTarget grantedPieces.flatten) = some url ∧ Grants "S" "C" url :=
  ((@login_callback (.ofTable []) 0 (.start fun _ => ⟨none, .ok ⟨200, ""⟩, .ok "C", 1000⟩)
    "http://localhost:1455/auth/callback" "verifier" "S" parseGranted 300 grantedPieces.flatten
    (grantedPieces.map .bytes) (by decide)
    ⟨grantedPieces, [], by decide +kernel, rfl, (List.append_nil _).symm, .inl (by decide +kernel)⟩ (by decide +kernel)
    (by decide +kernel)).1 "C").1 rfl

end Login

end Aifluxon
